import YellowstoneStream.App.Config
import YellowstoneStream.Reasoning.Agree

/-!
# What the startup tells

The error or the summary that the process prints of its configuration, and that neither shows what
is in the database URL, the endpoint, the token or the account filters.
-/

open YellowstoneStream.Reasoning YellowstoneStream.Stream

namespace YellowstoneStream.App

def RunMode.asStr : RunMode → String
  | .replay => "replay"
  | .yellowstone => "yellowstone"

def YellowstoneSubscriptions.asCsv (subscriptions : YellowstoneSubscriptions) : String :=
  ",".intercalate <|
    (if subscriptions.slots then ["slots"] else []) ++
    (if subscriptions.transactions then ["transactions"] else []) ++
    (if subscriptions.blocks then ["blocks"] else []) ++
    (if subscriptions.entries then ["entries"] else [])

def reconnectRetriesSummary (maxRetries : Option Nat) : String :=
  maxRetries.elim "unlimited" toString

namespace Config

def summaryFields (config : Config) : List (String × String) :=
  [("run_mode", config.runMode.asStr),
    ("http_addr", config.httpAddr),
    ("replay_path", config.replayPath),
    ("stream_name", config.streamName),
    ("exit_after_replay", toString config.exitAfterReplay),
    ("batch_size", toString config.batchSize),
    ("channel_capacity", toString config.channelCapacity),
    ("database_url_configured", toString (!config.databaseUrl.isEmpty)),
    ("yellowstone_endpoint_configured", toString config.yellowstoneEndpoint.isSome),
    ("yellowstone_x_token_configured", toString config.yellowstoneXToken.isSome),
    ("yellowstone_cluster", config.yellowstoneCluster),
    ("yellowstone_subscriptions", config.yellowstoneSubscriptions.asCsv),
    ("yellowstone_transaction_account_include_count",
      toString config.yellowstoneTransactionAccountInclude.length),
    ("yellowstone_transaction_account_exclude_count",
      toString config.yellowstoneTransactionAccountExclude.length),
    ("yellowstone_transaction_account_required_count",
      toString config.yellowstoneTransactionAccountRequired.length),
    ("yellowstone_reconnect_initial_delay_ms",
      toString (config.yellowstoneReconnect.initialDelay / nanosPerMilli)),
    ("yellowstone_reconnect_max_delay_ms",
      toString (config.yellowstoneReconnect.maxDelay / nanosPerMilli)),
    ("yellowstone_reconnect_max_retries",
      reconnectRetriesSummary config.yellowstoneReconnect.maxRetries)]

def redactedSummary (config : Config) : String :=
  "; ".intercalate (config.summaryFields.map fun field => field.1 ++ "=" ++ field.2)

/-- What is left of a configuration without its secrets. -/
def withoutSecrets (config : Config) : Config :=
  { config with
    databaseUrl := ""
    yellowstoneEndpoint := none
    yellowstoneXToken := none
    yellowstoneTransactionAccountInclude := []
    yellowstoneTransactionAccountExclude := []
    yellowstoneTransactionAccountRequired := [] }

/-- Equal but for what the secrets are. -/
structure SameButSecrets (config config' : Config) : Prop where
  databaseUrl : config.databaseUrl.isEmpty = config'.databaseUrl.isEmpty
  endpoint : config.yellowstoneEndpoint.isSome = config'.yellowstoneEndpoint.isSome
  xToken : config.yellowstoneXToken.isSome = config'.yellowstoneXToken.isSome
  accountInclude : config.yellowstoneTransactionAccountInclude.length =
    config'.yellowstoneTransactionAccountInclude.length
  accountExclude : config.yellowstoneTransactionAccountExclude.length =
    config'.yellowstoneTransactionAccountExclude.length
  accountRequired : config.yellowstoneTransactionAccountRequired.length =
    config'.yellowstoneTransactionAccountRequired.length
  others : config.withoutSecrets = config'.withoutSecrets

end Config

/-- What the startup prints: the configuration error, or the summary of what was loaded. -/
def startupText (var : String → Except VarError String) (args : CliArgs) :
    Except ConfigError String := do
  let config ← Config.fromEnv var
  let config ← config.applyOverrides args
  return config.redactedSummary

/-! ## What may differ -/

def secretKeys : List String := ["DATABASE_URL", "YELLOWSTONE_ENDPOINT", "YELLOWSTONE_X_TOKEN"]

def filterKeys : List String :=
  ["YELLOWSTONE_TRANSACTION_ACCOUNT_INCLUDE", "YELLOWSTONE_TRANSACTION_ACCOUNT_EXCLUDE",
    "YELLOWSTONE_TRANSACTION_ACCOUNT_REQUIRED"]

/-- How many accounts a filter lists, or how it is malformed. -/
def filterCount (key value : String) : Except ConfigError Nat :=
  (parseAccountFilterList key value).map List.length

/-- Sources that give the same but for what the secrets are: they are given in both or in none, and
blank in both or in none; the filters list as many accounts. -/
structure ConfigSource.SameButSecrets (source source' : ConfigSource) : Prop where
  secrets : ∀ key ∈ secretKeys,
    (source key).map (Option.map Text.isBlank) = (source' key).map (Option.map Text.isBlank)
  filters : ∀ key ∈ filterKeys, (source key).map (Option.map (filterCount key)) =
    (source' key).map (Option.map (filterCount key))
  others : ∀ key, key ∉ secretKeys ++ filterKeys → source key = source' key

def CliArgs.withoutSecrets (args : CliArgs) : CliArgs :=
  { args with
    yellowstoneEndpoint := none
    yellowstoneTransactionAccountInclude := none
    yellowstoneTransactionAccountExclude := none
    yellowstoneTransactionAccountRequired := none }

structure CliArgs.SameButSecrets (args args' : CliArgs) : Prop where
  endpoint : args.yellowstoneEndpoint.map Text.isBlank = args'.yellowstoneEndpoint.map Text.isBlank
  accountInclude : args.yellowstoneTransactionAccountInclude.map
      (filterCount "--yellowstone-transaction-account-include") =
    args'.yellowstoneTransactionAccountInclude.map
      (filterCount "--yellowstone-transaction-account-include")
  accountExclude : args.yellowstoneTransactionAccountExclude.map
      (filterCount "--yellowstone-transaction-account-exclude") =
    args'.yellowstoneTransactionAccountExclude.map
      (filterCount "--yellowstone-transaction-account-exclude")
  accountRequired : args.yellowstoneTransactionAccountRequired.map
      (filterCount "--yellowstone-transaction-account-required") =
    args'.yellowstoneTransactionAccountRequired.map
      (filterCount "--yellowstone-transaction-account-required")
  others : args.withoutSecrets = args'.withoutSecrets

/-! ## The summary -/

namespace Config

section SameButSecrets

variable {config config' : Config}

theorem SameButSecrets.fields (h : config.SameButSecrets config') :
    config.runMode = config'.runMode ∧ config.httpAddr = config'.httpAddr ∧
      config.replayPath = config'.replayPath ∧ config.streamName = config'.streamName ∧
      config.exitAfterReplay = config'.exitAfterReplay ∧ config.batchSize = config'.batchSize ∧
      config.channelCapacity = config'.channelCapacity ∧
      config.yellowstoneCluster = config'.yellowstoneCluster ∧
      config.yellowstoneSubscriptions = config'.yellowstoneSubscriptions ∧
      config.yellowstoneReconnect = config'.yellowstoneReconnect := by
  have hothers := h.others
  cases config
  cases config'
  simp only [withoutSecrets, mk.injEq, true_and] at hothers
  obtain ⟨rfl, rfl, rfl, rfl, rfl, rfl, rfl, rfl, rfl, rfl, rfl⟩ := hothers
  simp only [and_self]

theorem redactedSummary_congr (h : config.SameButSecrets config') :
    config.redactedSummary = config'.redactedSummary := by
  obtain ⟨hmode, haddr, hpath, hname, hexit, hbatch, hcapacity, hcluster, hsubscriptions,
    hreconnect⟩ := h.fields
  have hfields : config.summaryFields = config'.summaryFields := by
    simp only [summaryFields, hmode, haddr, hpath, hname, hexit, hbatch, hcapacity, hcluster,
      hsubscriptions, hreconnect, h.databaseUrl, h.endpoint, h.xToken, h.accountInclude,
      h.accountExclude, h.accountRequired]
  rw [redactedSummary, hfields, redactedSummary]

end SameButSecrets

end Config

/-! ## The environment -/

section Source

variable {source source' : ConfigSource} {key : String}

theorem agree_envOrDefault {default : String}
    (h : (source key).map (Option.map Text.isBlank) = (source' key).map (Option.map Text.isBlank)) :
    Agree (fun a b => a.isEmpty = b.isEmpty) (envOrDefault source key default)
      (envOrDefault source' key default) := by
  have hnonempty {text : String} (hblank : Text.isBlank text = false) : text.isEmpty = false := by
    refine Bool.eq_false_iff.mpr fun hempty => ?_
    rw [String.isEmpty_iff.mp hempty] at hblank
    exact absurd hblank (by decide)
  refine (Agree.map_eq_map_iff.mp h).bind fun value value' hsame => ?_
  cases value with
  | none =>
      cases value' with
      | none => exact .ok rfl
      | some text' => cases hsame
  | some text =>
      cases value' with
      | none => cases hsame
      | some text' =>
          have hblank : Text.isBlank text = Text.isBlank text' := Option.some.inj hsame
          refine .check (by rw [hblank]) fun htext htext' => .ok ?_
          exact (hnonempty (Bool.eq_false_iff.mpr htext)).trans
            (hnonempty (Bool.eq_false_iff.mpr htext')).symm

theorem agree_nonEmptyCliValue {value value' : Option String}
    (h : value.map Text.isBlank = value'.map Text.isBlank) :
    Agree (fun a b => a.isSome = b.isSome) (nonEmptyCliValue key value)
      (nonEmptyCliValue key value') := by
  cases value with
  | none =>
      cases value' with
      | none => exact .ok rfl
      | some text' => cases h
  | some text =>
      cases value' with
      | none => cases h
      | some text' =>
          have hblank : Text.isBlank text = Text.isBlank text' := Option.some.inj h
          exact .check (by rw [hblank]) fun _ _ => .ok rfl

theorem agree_envOptionalNonEmpty
    (h : (source key).map (Option.map Text.isBlank) = (source' key).map (Option.map Text.isBlank)) :
    Agree (fun a b => a.isSome = b.isSome) (envOptionalNonEmpty source key)
      (envOptionalNonEmpty source' key) :=
  (Agree.map_eq_map_iff.mp h).bind fun _ _ hsame => agree_nonEmptyCliValue hsame

theorem agree_parseAccountFilterList {value value' : String}
    (h : filterCount key value = filterCount key value') :
    Agree (fun a b => a.length = b.length) (parseAccountFilterList key value)
      (parseAccountFilterList key value') :=
  Agree.map_eq_map_iff.mp h

theorem agree_envAccountFilterList (h : (source key).map (Option.map (filterCount key)) =
    (source' key).map (Option.map (filterCount key))) :
    Agree (fun a b => a.length = b.length) (envAccountFilterList source key)
      (envAccountFilterList source' key) := by
  refine (Agree.map_eq_map_iff.mp h).bind fun value value' hsame => ?_
  cases value with
  | none =>
      cases value' with
      | none => exact .ok rfl
      | some text' => cases hsame
  | some text =>
      cases value' with
      | none => cases hsame
      | some text' => exact agree_parseAccountFilterList (Option.some.inj hsame)

theorem agree_fromSource (h : source.SameButSecrets source') :
    Agree Config.SameButSecrets (Config.fromSource source) (Config.fromSource source') := by
  have hother (key : String) (hkey : key ∉ secretKeys ++ filterKeys) := h.others key hkey
  have htext (key : String) (hkey : key ∉ secretKeys ++ filterKeys) (default : String) :
      envOrDefault source key default = envOrDefault source' key default := by
    rw [envOrDefault, hother key hkey, envOrDefault]
  have hnumber (key : String) (hkey : key ∉ secretKeys ++ filterKeys) (default : Nat) :
      envPositiveUsizeOrDefault source key default =
        envPositiveUsizeOrDefault source' key default := by
    rw [envPositiveUsizeOrDefault, htext key hkey, envPositiveUsizeOrDefault]
  have hsubscriptions : envYellowstoneSubscriptionsOrDefault source =
      envYellowstoneSubscriptionsOrDefault source' := by
    rw [envYellowstoneSubscriptionsOrDefault, hother _ (by decide),
      envYellowstoneSubscriptionsOrDefault]
  have hretries : envReconnectMaxRetries source = envReconnectMaxRetries source' := by
    rw [envReconnectMaxRetries, hother _ (by decide), envReconnectMaxRetries]
  have hdelay (key : String) (hkey : key ∉ secretKeys ++ filterKeys) (default : Nat) :
      envPositiveU64OrDefault source key default = envPositiveU64OrDefault source' key default := by
    rw [envPositiveU64OrDefault, htext key hkey, envPositiveU64OrDefault]
  have hreconnect : envYellowstoneReconnectSettings source =
      envYellowstoneReconnectSettings source' := by
    rw [envYellowstoneReconnectSettings, hdelay _ (by decide), hdelay _ (by decide),
      hdelay _ (by decide), hretries, envYellowstoneReconnectSettings]
  refine .shared (htext _ (by decide) _) fun _ => .shared rfl fun runMode => ?_
  refine .bind (agree_envOrDefault (h.secrets _ (by decide)))
    fun databaseUrl databaseUrl' hdatabaseUrl => ?_
  refine .shared (htext _ (by decide) _) fun httpAddr => ?_
  refine .shared (htext _ (by decide) _) fun rustLog => ?_
  refine .shared (htext _ (by decide) _) fun replayPath => ?_
  refine .shared (htext _ (by decide) _) fun streamName => ?_
  refine .shared (hnumber _ (by decide) _) fun batchSize => ?_
  refine .shared (hnumber _ (by decide) _) fun channelCapacity => ?_
  refine .bind (agree_envOptionalNonEmpty (h.secrets _ (by decide)))
    fun endpoint endpoint' hendpoint => ?_
  refine .bind (agree_envOptionalNonEmpty (h.secrets _ (by decide)))
    fun xToken xToken' hxToken => ?_
  refine .shared (htext _ (by decide) _) fun cluster => ?_
  refine .shared hsubscriptions fun subscriptions => ?_
  refine .bind (agree_envAccountFilterList (h.filters _ (by decide)))
    fun accountInclude accountInclude' hinclude => ?_
  refine .bind (agree_envAccountFilterList (h.filters _ (by decide)))
    fun accountExclude accountExclude' hexclude => ?_
  refine .bind (agree_envAccountFilterList (h.filters _ (by decide)))
    fun accountRequired accountRequired' hrequired => ?_
  refine .shared hreconnect fun reconnect => .ok ?_
  exact ⟨hdatabaseUrl, hendpoint, hxToken, hinclude, hexclude, hrequired, rfl⟩

end Source

/-! ## The command line -/

namespace Config

section Overrides

variable {config config' : Config} {key : String} {value value' : Option String}
  {set set' : Config → String → Except ConfigError Config}

theorem agree_overrideWith (h : config.SameButSecrets config')
    (hset : ∀ value, Agree SameButSecrets (set config value) (set' config' value)) :
    Agree SameButSecrets (config.overrideWith value set) (config'.overrideWith value set') := by
  cases value with
  | none => exact .ok h
  | some value => exact hset value

theorem agree_overrideText (h : config.SameButSecrets config')
    (hset : ∀ value, Agree SameButSecrets (set config value) (set' config' value)) :
    Agree SameButSecrets (config.overrideText key value set)
      (config'.overrideText key value set') :=
  .shared rfl fun _ => agree_overrideWith h hset

/-- The endpoint may differ, but it is given on both sides or on none. -/
theorem agree_overrideEndpoint (h : config.SameButSecrets config')
    (hvalue : value.map Text.isBlank = value'.map Text.isBlank) :
    Agree SameButSecrets
      (config.overrideText key value
        fun config value => .ok { config with yellowstoneEndpoint := some value })
      (config'.overrideText key value'
        fun config value => .ok { config with yellowstoneEndpoint := some value }) := by
  refine .bind (agree_nonEmptyCliValue hvalue) fun given given' hsame => ?_
  cases given with
  | none =>
      cases given' with
      | none => exact .ok h
      | some endpoint' => cases hsame
  | some endpoint =>
      cases given' with
      | none => cases hsame
      | some endpoint' => exact .ok { h with endpoint := rfl }

theorem agree_overrideFilter (h : config.SameButSecrets config')
    (hvalue : value.map (filterCount key) = value'.map (filterCount key))
    {update : Config → List String → Config}
    (hupdate : ∀ accounts accounts', accounts.length = accounts'.length →
      (update config accounts).SameButSecrets (update config' accounts')) :
    Agree SameButSecrets
      (config.overrideWith value fun config value => do
        let accounts ← parseAccountFilterList key value
        return update config accounts)
      (config'.overrideWith value' fun config value => do
        let accounts ← parseAccountFilterList key value
        return update config accounts) := by
  cases value with
  | none =>
      cases value' with
      | none => exact .ok h
      | some text' => cases hvalue
  | some text =>
      cases value' with
      | none => cases hvalue
      | some text' =>
          exact .bind (agree_parseAccountFilterList (Option.some.inj hvalue))
            fun accounts accounts' hlength => .ok (hupdate accounts accounts' hlength)

end Overrides

theorem SameButSecrets.overrideMode {config config' : Config} (h : config.SameButSecrets config')
    (mode : Option RunMode) :
    SameButSecrets { config with runMode := mode.getD config.runMode }
      { config' with runMode := mode.getD config'.runMode } :=
  { h with
    others := congrArg (fun config : Config =>
      { config with runMode := mode.getD config.runMode }) h.others }

theorem agree_validateRuntimeRequirements {config config' : Config}
    (h : config.SameButSecrets config') :
    Agree SameButSecrets config.validateRuntimeRequirements
      config'.validateRuntimeRequirements := by
  refine .check ?_ fun _ _ => .ok h
  rw [h.fields.1, ← Option.not_isSome, h.endpoint, Option.not_isSome]

theorem agree_applyOverrides {config config' : Config} {args args' : CliArgs}
    (h : config.SameButSecrets config') (hargs : args.SameButSecrets args') :
    Agree SameButSecrets (config.applyOverrides args) (config'.applyOverrides args') := by
  have hmode := h.overrideMode (args.mode.map CliRunMode.toRunMode)
  obtain ⟨hendpoint, hinclude, hexclude, hrequired, hothers⟩ := hargs
  cases args
  cases args'
  simp only [CliArgs.withoutSecrets, CliArgs.mk.injEq, true_and] at hothers
  obtain ⟨rfl, rfl, rfl, rfl, rfl, rfl, rfl, rfl, rfl, rfl⟩ := hothers
  refine .bind (agree_overrideText hmode fun value => .ok { hmode with
    others := congrArg (fun config : Config => { config with httpAddr := value }) hmode.others })
    fun config config' h => ?_
  refine .bind (agree_overrideText h fun value => .ok { h with
    others := congrArg (fun config : Config => { config with replayPath := value }) h.others })
    fun config config' h => ?_
  refine .bind (agree_overrideText h fun value => .ok { h with
    others := congrArg (fun config : Config => { config with streamName := value }) h.others })
    fun config config' h => ?_
  refine .bind (agree_overrideEndpoint h hendpoint) fun config config' h => ?_
  refine .bind (agree_overrideText h fun value => .ok { h with
    others := congrArg (fun config : Config =>
      { config with yellowstoneCluster := value }) h.others })
    fun config config' h => ?_
  refine .bind (agree_overrideText h fun value => .shared rfl fun subscriptions => .ok { h with
    others := congrArg (fun config : Config =>
      { config with yellowstoneSubscriptions := subscriptions }) h.others })
    fun config config' h => ?_
  refine .bind (agree_overrideFilter h hinclude fun accounts accounts' hlength =>
    { h with accountInclude := hlength }) fun config config' h => ?_
  refine .bind (agree_overrideFilter h hexclude fun accounts accounts' hlength =>
    { h with accountExclude := hlength }) fun config config' h => ?_
  refine .bind (agree_overrideFilter h hrequired fun accounts accounts' hlength =>
    { h with accountRequired := hlength }) fun config config' h => ?_
  refine .bind (agree_overrideText h fun value => .shared rfl fun delayMs => .ok { h with
    others := congrArg (fun config : Config =>
      { config with yellowstoneReconnect.initialDelay := delayMs * nanosPerMilli }) h.others })
    fun config config' h => ?_
  refine .bind (agree_overrideText h fun value => .shared rfl fun delayMs => .ok { h with
    others := congrArg (fun config : Config =>
      { config with yellowstoneReconnect.maxDelay := delayMs * nanosPerMilli }) h.others })
    fun config config' h => ?_
  refine .bind (agree_overrideText h fun value => .shared rfl fun maxRetries => .ok { h with
    others := congrArg (fun config : Config =>
      { config with yellowstoneReconnect.maxRetries := maxRetries }) h.others })
    fun config config' h => ?_
  have hreconnect : config.yellowstoneReconnect = config'.yellowstoneReconnect := by
    obtain ⟨_, _, _, _, _, _, _, _, _, hreconnect⟩ := h.fields
    exact hreconnect
  refine .shared (by rw [hreconnect]) fun _ => ?_
  refine agree_validateRuntimeRequirements ?_
  split
  · exact { h with
      others := congrArg (fun config : Config => { config with exitAfterReplay := true }) h.others }
  · exact h

end Config

/-- Two processes whose settings differ in what the secrets are alone print the same. -/
theorem startup_reveals_no_secret {var var' : String → Except VarError String}
    {args args' : CliArgs} (hvar : (systemEnv var).SameButSecrets (systemEnv var'))
    (hargs : args.SameButSecrets args') : startupText var args = startupText var' args' := by
  refine Agree.eq ((agree_fromSource hvar).bind fun config config' hconfig => ?_)
  refine (Config.agree_applyOverrides hconfig hargs).bind fun final final' hfinal => ?_
  exact .ok (Config.redactedSummary_congr hfinal)

/-- An environment that sets a token and one account filter. -/
def tokenEnv (token accounts : String) (key : String) : Except VarError String :=
  if key = "YELLOWSTONE_X_TOKEN" then .ok token
  else if key = "YELLOWSTONE_TRANSACTION_ACCOUNT_INCLUDE" then .ok accounts
  else .error .notPresent

theorem startup_reveals_no_secret_of_tokens :
    startupText (tokenEnv "tok-1" "a, b") .default =
      startupText (tokenEnv "tok-2" "c,d,c") .default := by
  refine startup_reveals_no_secret ⟨by decide, by decide, fun key hkey => ?_⟩
    ⟨rfl, rfl, rfl, rfl, rfl⟩
  have htoken : key ≠ "YELLOWSTONE_X_TOKEN" := by
    rintro rfl
    exact hkey (by decide)
  have hinclude : key ≠ "YELLOWSTONE_TRANSACTION_ACCOUNT_INCLUDE" := by
    rintro rfl
    exact hkey (by decide)
  rw [systemEnv, systemEnv, tokenEnv, tokenEnv, if_neg htoken, if_neg htoken, if_neg hinclude,
    if_neg hinclude]

end YellowstoneStream.App
