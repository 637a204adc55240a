import YellowstoneStream.Domain.EventJson
import YellowstoneStream.Reasoning.Lines

/-!
# Replay files

A replay file holds one event a line.  It is read as a whole before anything is replayed, and the
first line that cannot be read is reported with its number.
-/

open YellowstoneStream.Domain YellowstoneStream.Reasoning

namespace YellowstoneStream.Stream

/-- The files of a system whose input errors are of type `ε`. -/
structure Files (ε : Type) where
  openFile : String → Except ε (Lines.Source ε)
  /-- The error for a line that is not UTF-8. -/
  invalidText : ε
  display : ε → String

inductive ReplayReadError (ε : Type) where
  | open (path : String) (source : ε)
  | readLine (lineNumber : Nat) (source : ε)
  | parseLine (lineNumber : Nat) (source : NormalizedEventParseError)
  deriving DecidableEq, Repr

variable {ε : Type}

def ReplayReadError.display (files : Files ε) : ReplayReadError ε → String
  | .open path source => "failed to open replay file " ++ path ++ ": " ++ files.display source
  | .readLine lineNumber source =>
      "failed to read replay line " ++ toString lineNumber ++ ": " ++ files.display source
  | .parseLine lineNumber source =>
      "failed to parse replay line " ++ toString lineNumber ++ ": " ++ source.display

/-- One round of the loop in `read_jsonl_events`. -/
def readEventLine (json : JsonText) (lineNumber : Nat) (line : Except ε String) :
    Except (ReplayReadError ε) NormalizedEvent := do
  let line ← line.mapError (.readLine lineNumber)
  (parseNormalizedEvent json line).mapError (.parseLine lineNumber)

def readEventLines (json : JsonText) (lines : List (Except ε String)) :
    Except (ReplayReadError ε) (List NormalizedEvent) :=
  (lines.zipIdx).mapM fun (line, index) => readEventLine json (index + 1) line

def readJsonlEvents (json : JsonText) (files : Files ε) (path : String) :
    Except (ReplayReadError ε) (List NormalizedEvent) := do
  let file ← (files.openFile path).mapError (.open path)
  readEventLines json (Lines.lines files.invalidText file)

theorem readJsonlEvents_of_open {json : JsonText} {files : Files ε} {path : String}
    {file : Lines.Source ε} (hopen : files.openFile path = .ok file) :
    readJsonlEvents json files path = readEventLines json (Lines.lines files.invalidText file) := by
  rw [readJsonlEvents, hopen]
  rfl

section Lines

variable {json : JsonText} {line : Except ε String} {lineNumber : Nat}

/-- The line is there and holds an event. -/
def HoldsEvent (json : JsonText) (line : Except ε String) (event : NormalizedEvent) : Prop :=
  ∃ text, line = .ok text ∧ parseNormalizedEvent json text = .ok event

/-- What is reported of a line that is not there or holds no event. -/
inductive LineFailure (json : JsonText) (lineNumber : Nat) :
    Except ε String → ReplayReadError ε → Prop
  | read (source : ε) : LineFailure json lineNumber (.error source) (.readLine lineNumber source)
  | parse {text : String} {source : NormalizedEventParseError}
      (h : parseNormalizedEvent json text = .error source) :
      LineFailure json lineNumber (.ok text) (.parseLine lineNumber source)

theorem readEventLine_eq_ok_iff {event : NormalizedEvent} :
    readEventLine json lineNumber line = .ok event ↔ HoldsEvent json line event := by
  rw [readEventLine, bind_eq_ok_iff]
  simp only [mapError_eq_ok_iff]
  rfl

theorem readEventLine_eq_error_iff {err : ReplayReadError ε} :
    readEventLine json lineNumber line = .error err ↔ LineFailure json lineNumber line err := by
  cases line with
  | error source =>
      constructor
      · rintro ⟨⟩
        exact .read source
      · rintro ⟨⟩
        rfl
  | ok text =>
      rw [readEventLine, Except.mapError, ok_bind]
      cases hparse : parseNormalizedEvent json text with
      | ok event =>
          refine ⟨nofun, ?_⟩
          rintro ⟨⟩
          rename_i hfail
          rw [hparse] at hfail
          cases hfail
      | error source =>
          constructor
          · rintro ⟨⟩
            exact .parse hparse
          · rintro ⟨⟩
            rename_i hfail
            rw [hparse] at hfail
            cases hfail
            rfl

theorem readEventLines_eq_ok_iff {lines : List (Except ε String)} {events : List NormalizedEvent} :
    readEventLines json lines = .ok events ↔ List.Forall₂ (HoldsEvent json) lines events := by
  rw [readEventLines, mapM_eq_ok_iff]
  simp only [readEventLine_eq_ok_iff]
  rw [← List.forall₂_map_left_iff (f := Prod.fst), List.zipIdx_map_fst]

/-- The first line without an event is reported, with its number. -/
theorem readEventLines_eq_error_iff {lines : List (Except ε String)} {err : ReplayReadError ε} :
    readEventLines json lines = .error err ↔ ∃ before line after, lines = before ++ line :: after ∧
      (∀ l ∈ before, ∃ event, HoldsEvent json l event) ∧
      LineFailure json (before.length + 1) line err := by
  rw [readEventLines, mapM_eq_error_iff]
  simp only [readEventLine_eq_ok_iff, readEventLine_eq_error_iff]
  constructor
  · rintro ⟨before, ⟨line, index⟩, after, hsplit, hbefore, hfail⟩
    have hindex : index = before.length := by
      have hget := congrArg (fun l => l[before.length]?) hsplit
      simp only [List.getElem?_zipIdx, List.getElem?_append_right le_rfl, Nat.sub_self,
        List.getElem?_cons_zero, Option.map_eq_some_iff, Prod.mk.injEq] at hget
      obtain ⟨_, -, -, hindex⟩ := hget
      omega
    subst hindex
    have hlines : lines = before.map Prod.fst ++ line :: after.map Prod.fst := by
      rw [← List.zipIdx_map_fst 0 lines, hsplit, List.map_append, List.map_cons]
    refine ⟨before.map Prod.fst, line, after.map Prod.fst, hlines, ?_, ?_⟩
    · intro l hl
      obtain ⟨pair, hpair, rfl⟩ := List.mem_map.mp hl
      exact hbefore pair hpair
    · rwa [List.length_map]
  · rintro ⟨before, line, after, rfl, hbefore, hfail⟩
    refine ⟨before.zipIdx, (line, before.length), after.zipIdx (before.length + 1), ?_, ?_, hfail⟩
    · rw [List.zipIdx_append, List.zipIdx_cons, Nat.zero_add]
    · intro pair hpair
      exact hbefore pair.1 (List.fst_mem_of_mem_zipIdx hpair)

end Lines

/-! ## Written files -/

/-- What the texts of the given values are relied on for: they are read back, and they are no blank
lines and not broken into several. -/
structure Writes (json : JsonText) (values : Set Value) : Prop where
  fromStr : ∀ value ∈ values, json.fromStr (json.toStr value) = some value
  unbroken : ∀ value ∈ values, Lines.Unbroken (json.toStr value)
  notBlank : ∀ value ∈ values, Text.isBlank (json.toStr value) = false

section Write

variable (json : JsonText)

def eventText (event : NormalizedEvent) : String := json.toStr event.toValue

/-- A file with an event a line; each line ends as on Unix or on Windows, and the last one may lack
its end. -/
def fileBytes (written : List (NormalizedEvent × Bool)) (last : Option NormalizedEvent) :
    List UInt8 :=
  (written.map fun (event, windows) => (eventText json event, windows)).flatMap Lines.writeLine ++
    ((last.map (eventText json)).map Lines.textBytes).getD []

end Write

section RoundTrip

variable {json : JsonText} {written : List (NormalizedEvent × Bool)} {last : Option NormalizedEvent}
  (hwrites : Writes json {value | ∃ event ∈ written.map Prod.fst ++ last.toList,
    event.toValue = value})
include hwrites

theorem lines_fileBytes (invalidText : ε) :
    Lines.lines invalidText ⟨fileBytes json written last, none⟩ =
      (written.map Prod.fst ++ last.toList).map fun event => .ok (eventText json event) := by
  have hunbroken : ∀ event ∈ written.map Prod.fst ++ last.toList,
      Lines.Unbroken (eventText json event) := fun event h => hwrites.unbroken _ ⟨event, h, rfl⟩
  have hwritten : ∀ line ∈ written.map fun (event, windows) => (eventText json event, windows),
      Lines.Unbroken line.1 := by
    intro line hline
    obtain ⟨pair, hpair, rfl⟩ := List.mem_map.mp hline
    exact hunbroken pair.1 (List.mem_append_left _ (List.mem_map_of_mem hpair))
  have hlast : ∀ text ∈ last.map (eventText json), Lines.Unbroken text ∧ text ≠ "" := by
    intro text htext
    obtain ⟨event, rfl, rfl⟩ := Option.map_eq_some_iff.mp htext
    have hmem : event ∈ written.map Prod.fst ++ (some event).toList :=
      List.mem_append_right _ List.mem_cons_self
    refine ⟨hunbroken event hmem, fun hempty => ?_⟩
    have hblank := hwrites.notBlank _ ⟨event, hmem, rfl⟩
    rw [eventText] at hempty
    rw [hempty] at hblank
    exact absurd hblank (by decide)
  rw [fileBytes, Lines.lines_of_written hwritten hlast, Option.toList_map]
  simp only [List.map_append, List.map_map, Function.comp_def]

theorem holdsEvent_eventText (hwell : ∀ event ∈ written.map Prod.fst ++ last.toList,
    event.WellFormed) {event : NormalizedEvent}
    (h : event ∈ written.map Prod.fst ++ last.toList) :
    HoldsEvent (ε := ε) json (.ok (eventText json event)) event := by
  obtain ⟨entries, hentries, hgiven⟩ := NormalizedEvent.givenBy_toValue (hwell event h).ordered
  have hjson := hwrites.fromStr event.toValue ⟨event, h, rfl⟩
  rw [hentries] at hjson
  refine ⟨_, rfl, parse_of_givenBy (hwell event h) (hwrites.notBlank _ ⟨event, h, rfl⟩) ?_ hgiven⟩
  rw [eventText, hentries]
  exact hjson

end RoundTrip

/-- A file that can be opened is read exactly if every line holds an event, and then these are the
events; else the error is that of the first other line, with its number. -/
theorem read_jsonl_events_or_first_failure (json : JsonText) (files : Files ε) (path : String)
    (file : Lines.Source ε) (hopen : files.openFile path = .ok file) :
    (∀ events, readJsonlEvents json files path = .ok events ↔
      List.Forall₂ (HoldsEvent json) (Lines.lines files.invalidText file) events) ∧
    ∀ err, readJsonlEvents json files path = .error err ↔ ∃ before line after,
      Lines.lines files.invalidText file = before ++ line :: after ∧
        (∀ l ∈ before, ∃ event, HoldsEvent json l event) ∧
        LineFailure json (before.length + 1) line err := by
  rw [readJsonlEvents_of_open hopen]
  exact ⟨fun _ => readEventLines_eq_ok_iff, fun _ => readEventLines_eq_error_iff⟩

/-- Events that are checked, in range and ordered, as all are that were read from a file, can be
written to a file, a line each, and are read back from there in their order. -/
theorem written_events_are_read_back (json : JsonText) (files : Files ε) (path : String)
    (written : List (NormalizedEvent × Bool)) (last : Option NormalizedEvent)
    (hwell : ∀ event ∈ written.map Prod.fst ++ last.toList, event.WellFormed)
    (hwrites : Writes json {value | ∃ event ∈ written.map Prod.fst ++ last.toList,
      event.toValue = value})
    (hopen : files.openFile path = .ok ⟨fileBytes json written last, none⟩) :
    readJsonlEvents json files path = .ok (written.map Prod.fst ++ last.toList) := by
  rw [readJsonlEvents_of_open hopen, readEventLines_eq_ok_iff, lines_fileBytes hwrites,
    List.forall₂_map_left_iff, List.forall₂_same]
  exact fun event h => holdsEvent_eventText hwrites hwell h

/-! ## Two files -/

theorem deadSlotLine_unbroken : Lines.Unbroken deadSlotLine := by
  apply Lines.Unbroken.append
  · simp [Lines.Unbroken]
  · simp [Lines.Unbroken]

theorem linesJson_writes {values : Set Value}
    (h : ∀ value ∈ values, deadSlotEvent.toValue = value) :
    Writes linesJson values where
  fromStr value hvalue := by
    rw [← h value hvalue]
    exact linesJson_deadSlotLine
  unbroken _ _ := deadSlotLine_unbroken
  notBlank _ _ := deadSlotLine_notBlank

/-- One file with an event on two lines, the first ended as on Windows and the second not at all,
and one where a line that is not JSON follows the event. -/
def twoFiles : Files String where
  openFile path :=
    if path = "events.jsonl" then
      .ok ⟨fileBytes linesJson [(deadSlotEvent, true)] (some deadSlotEvent), none⟩
    else .ok ⟨[(deadSlotLine, false), ("not-json", false)].flatMap Lines.writeLine, none⟩
  invalidText := "stream did not contain valid UTF-8"
  display source := source

theorem written_events_are_read_back_twice :
    readJsonlEvents linesJson twoFiles "events.jsonl" = .ok [deadSlotEvent, deadSlotEvent] := by
  have hsame : ∀ event ∈ [(deadSlotEvent, true)].map Prod.fst ++ (some deadSlotEvent).toList,
      event = deadSlotEvent := by simp
  refine written_events_are_read_back linesJson twoFiles "events.jsonl" [(deadSlotEvent, true)]
    (some deadSlotEvent) (fun event h => ?_) (linesJson_writes ?_) rfl
  · rw [hsame event h]
    exact deadSlotEvent_wellFormed
  · rintro value ⟨event, h, rfl⟩
    rw [hsame event h]

theorem linesJson_notJson : parseNormalizedEvent linesJson "not-json" =
    .error (.invalidJson "expected ident at line 1 column 2") := by
  have hline : "not-json" ≠ deadSlotLine := by
    refine mt (congrArg String.toList) ?_
    unfold deadSlotLine
    rw [String.toList_append]
    simp
  have hreversed : "not-json" ≠ reversedLine := by
    refine mt (congrArg String.toList) ?_
    unfold reversedLine
    rw [String.toList_append]
    simp
  have hjson : linesJson.fromStr "not-json" = none := by
    dsimp only [linesJson]
    rw [if_neg hline, if_neg hreversed]
  rw [parseNormalizedEvent, if_neg (by decide), hjson]
  rfl

theorem read_jsonl_events_or_first_failure_second_line :
    readJsonlEvents linesJson twoFiles "other.jsonl" =
      .error (.parseLine 2 (.invalidJson "expected ident at line 1 column 2")) := by
  have hunbroken : ∀ line ∈ [(deadSlotLine, false), ("not-json", false)],
      Lines.Unbroken line.1 :=
    List.forall_mem_cons.mpr ⟨deadSlotLine_unbroken, by simp [Lines.Unbroken]⟩
  have hlines : Lines.lines twoFiles.invalidText
      ⟨[(deadSlotLine, false), ("not-json", false)].flatMap Lines.writeLine, none⟩ =
        [.ok deadSlotLine] ++ .ok "not-json" :: [] := by
    have hwritten := @Lines.lines_of_written String twoFiles.invalidText _ none hunbroken nofun
    rwa [Option.map_none, Option.getD_none, List.append_nil] at hwritten
  refine ((read_jsonl_events_or_first_failure linesJson twoFiles "other.jsonl" _ rfl).2 _).mpr
    ⟨[.ok deadSlotLine], .ok "not-json", [], hlines, ?_, .parse linesJson_notJson⟩
  intro l hl
  obtain rfl := List.mem_singleton.mp hl
  exact ⟨deadSlotEvent, deadSlotLine, rfl, parse_deadSlotLine⟩

end YellowstoneStream.Stream
