import YellowstoneStream.Stream.PostgresStores
import YellowstoneStream.Stream.Reports

/-!
# What the pipeline announces

The consumer announces each event that it takes off the channel, before anything else happens to
it.  So the announcements of a run are those of the events received, but for the last one when the
consumer has only just taken it.
-/

open YellowstoneStream.Domain YellowstoneStream.Reasoning YellowstoneStream.Storage

namespace YellowstoneStream.Stream

variable {W C S : Type}

def activities : PipelineCall → List PipelineActivity
  | .onActivity activity => [activity]
  | _ => []

def announced (tr : PipelineTrace W C S) : List PipelineActivity :=
  (Program.calls tr).flatMap activities

/-- What an activity tells of its event, and of the channel at that moment. -/
structure Announces (config : PipelineConfig) (activity : PipelineActivity)
    (event : NormalizedEvent) : Prop where
  slot : activity.slot = event.slot
  eventType : activity.eventType = event.kind.asStr
  channelCapacity : activity.channelCapacity = config.channelCapacity
  channelDepth : activity.channelDepth ≤ config.channelCapacity

def Announced (config : PipelineConfig) (events : List NormalizedEvent)
    (tr : PipelineTrace W C S) : Prop :=
  List.Forall₂ (Announces config) (announced tr) events

/-- A channel is never longer than it may be. -/
def ReadsWithin (capacity : Nat) : (c : PipelineCall) → PipelineCall.Reply W C S c → Prop
  | .channelLen, n => n ≤ capacity
  | .onActivity _, _ | .onProgress _, _ | .batchElapsed, _ | .writeBatch _, _
  | .updateAfterBatch .., _ | .recordSlotStates .., _ | .advanceContiguousFinalized _, _ => True

theorem readsWithin_of_readsDepth {capacity depth : Nat} (hle : depth ≤ capacity)
    {c : PipelineCall} {r : PipelineCall.Reply W C S c} (h : ReadsDepth depth c r) :
    ReadsWithin capacity c r := by
  cases c with
  | channelLen =>
      rw [ReadsWithin, show r = depth from h]
      exact hle
  | _ => exact trivial

/-! ## Announcing event by event -/

section Calls

variable {config : PipelineConfig} {events : List NormalizedEvent} {tr tr' : PipelineTrace W C S}
  {c : PipelineCall} {r : PipelineCall.Reply W C S c}

theorem announced_append (tr tr' : PipelineTrace W C S) :
    announced (tr ++ tr') = announced tr ++ announced tr' := by
  rw [announced, Program.calls, List.map_append, List.flatMap_append]
  rfl

theorem announced_of_quiet (h : ∀ a ∈ tr, activities a.1 = []) : announced tr = [] := by
  rw [announced, List.flatMap_eq_nil_iff]
  intro c hc
  obtain ⟨a, ha, rfl⟩ := List.mem_map.mp hc
  exact h a ha

theorem Announced.silent (hc : activities c = [])
    (hact : Program.Records (ReadsWithin config.channelCapacity) tr c r tr')
    (h : Announced config events tr) : Announced config events tr' := by
  obtain ⟨rfl, -⟩ := hact
  have hsame : announced [⟨c, r⟩] = [] := by
    rw [announced, Program.calls, List.map_singleton, List.flatMap_singleton, hc]
  rw [Announced, announced_append, hsame, List.append_nil]
  exact h

theorem Announced.next {activity : PipelineActivity} {event : NormalizedEvent}
    (hannounces : Announces config activity event)
    (hact : Program.Records (ReadsWithin config.channelCapacity) tr (.onActivity activity) () tr')
    (h : Announced config events tr) : Announced config (events ++ [event]) tr' := by
  obtain ⟨rfl, -⟩ := hact
  rw [Announced, announced_append]
  exact List.rel_append h (.cons hannounces .nil)

variable (config events) in
/-- An activity is the next one, of some event. -/
def AnnouncesNext (tr : PipelineTrace W C S) (c : PipelineCall) : Prop :=
  ∀ activity, c = .onActivity activity → ∃ earlier event, earlier ++ [event] <+: events ∧
    Announced config earlier tr ∧ Announces config activity event

theorem announcesNext_of_silent (hc : activities c = []) : AnnouncesNext config events tr c := by
  rintro activity rfl
  cases hc

theorem announced_step (hnext : AnnouncesNext config events tr c)
    (hact : Program.Records (ReadsWithin config.channelCapacity) tr c r tr')
    (h : ∃ earlier, earlier <+: events ∧ Announced config earlier tr) :
    ∃ earlier, earlier <+: events ∧ Announced config earlier tr' := by
  cases hc : activities c with
  | nil =>
      obtain ⟨earlier, hfront, hearlier⟩ := h
      exact ⟨earlier, hfront, hearlier.silent hc hact⟩
  | cons activity rest =>
      cases c with
      | onActivity activity =>
          obtain ⟨earlier, event, hfront, hearlier, hannounces⟩ := hnext activity rfl
          exact ⟨earlier ++ [event], hfront, hearlier.next hannounces hact⟩
      | _ => cases hc

end Calls

/-! ## The consumer announces each event once -/

section Consumer

/-- Programs that announce nothing. -/
abbrev Silent {α : Type} (p : PipelineProgram W C S α) : Prop :=
  Program.Triple (fun (_ : Unit) _ _ _ => True) (fun _ c => activities c = []) (fun _ _ => True)
    p ()

variable (streamName : String)

theorem silent_persistCursor (lastSlot : Option Nat) (summary : PipelineSummary) :
    Silent (W := W) (C := C) (S := S) (persistCursor streamName lastSlot summary) := by
  cases lastSlot with
  | none => exact trivial
  | some slot =>
      exact Program.triple_request rfl fun _ _ _ => Program.triple_orThrow fun _ _ => trivial

theorem silent_persistSlotStates (advance : Bool) (states : List SlotStateUpdate)
    (summary : PipelineSummary) :
    Silent (W := W) (C := C) (S := S) (persistSlotStates streamName advance states summary) := by
  unfold persistSlotStates
  split
  · exact trivial
  refine Program.triple_request rfl fun _ _ _ => Program.triple_orThrow fun _ _ => ?_
  split
  · exact Program.triple_request rfl fun _ _ _ => Program.triple_orThrow fun _ _ => trivial
  · exact trivial

theorem silent_writeBatch (advance : Bool) (batch : List NormalizedEvent)
    (summary : PipelineSummary) :
    Silent (W := W) (C := C) (S := S) (writeBatch streamName advance batch summary) := by
  refine Program.triple_request rfl fun _ _ _ => Program.triple_orThrow fun _ _ => ?_
  refine Program.triple_request rfl fun _ _ _ => ?_
  refine (silent_persistCursor streamName _ _).bind fun _ s _ => ?_
  exact (silent_persistSlotStates streamName advance _ s).bind fun _ _ _ => trivial

variable (config : PipelineConfig)

theorem silent_startReceiving : Silent (W := W) (C := C) (S := S) (startReceiving config) := by
  unfold startReceiving
  split
  · exact trivial
  · exact Program.triple_request rfl fun _ _ _ => trivial

theorem silent_finishReceiving (state : ReceiverState) :
    Silent (W := W) (C := C) (S := S) (finishReceiving config streamName state) := by
  unfold finishReceiving
  split
  · refine (silent_writeBatch streamName _ _ _).bind fun _ s _ => ?_
    exact Program.triple_request rfl fun _ _ _ => trivial
  · exact Program.triple_request rfl fun _ _ _ => trivial

variable {config} {events : List NormalizedEvent}

abbrev AnnouncingTriple {α : Type} (config : PipelineConfig) (events : List NormalizedEvent)
    (post : PipelineTrace W C S → α → Prop) (p : PipelineProgram W C S α)
    (tr : PipelineTrace W C S) : Prop :=
  Program.Triple (Program.Records (ReadsWithin config.channelCapacity))
    (AnnouncesNext config events) post p tr

theorem announcing_silent {α : Type} {earlier : List NormalizedEvent} {p : PipelineProgram W C S α}
    {tr : PipelineTrace W C S} (hp : Silent p) (h : Announced config earlier tr) :
    AnnouncingTriple config events (fun tr _ => Announced config earlier tr) p tr :=
  hp.frame (fun _ _ _ _ h hc hact => h.silent hc hact) (fun _ _ hc => announcesNext_of_silent hc) h

theorem announcing_receiveEvent {earlier : List NormalizedEvent} {event : NormalizedEvent}
    {state : ReceiverState} {tr : PipelineTrace W C S} (hnext : earlier ++ [event] <+: events)
    (h : Announced config earlier tr) :
    AnnouncingTriple config events (fun tr _ => Announced config (earlier ++ [event]) tr)
      (receiveEvent config streamName state event) tr := by
  refine Program.triple_request (announcesNext_of_silent rfl) fun depth tr₁ hdepth => ?_
  have hread := h.silent rfl hdepth
  refine Program.triple_request ?_ fun _ tr₂ hactivity => ?_
  · rintro activity ⟨rfl⟩
    exact ⟨earlier, event, hnext, hread, rfl, rfl, rfl, hdepth.2⟩
  have hannounced : Announced config (earlier ++ [event]) tr₂ := by
    apply hread.next _ hactivity
    exact ⟨rfl, rfl, rfl, hdepth.2⟩
  split
  · exact hannounced
  cases state.batcher.push event with
  | mk full batcher =>
      cases full with
      | none => exact hannounced
      | some batch =>
          refine (announcing_silent (silent_writeBatch streamName _ batch _) hannounced).bind ?_
          intro tr₃ s hwritten
          refine Program.triple_request (announcesNext_of_silent rfl) fun _ tr₄ hreport => ?_
          exact hwritten.silent rfl hreport

theorem announcing_consume {earlier : List NormalizedEvent} (hfront : earlier <+: events) :
    AnnouncingTriple (W := W) (C := C) (S := S) config events
      (fun tr _ => Announced config earlier tr)
      ((eventReceiverPipeline config streamName).consume earlier) [] := by
  induction earlier using List.reverseRecOn with
  | nil => exact announcing_silent (silent_startReceiving config) .nil
  | append_singleton earlier event ih =>
      rw [Worker.consume_snoc]
      refine (ih ((List.prefix_append _ _).trans hfront)).bind fun tr state h => ?_
      exact announcing_receiveEvent streamName hfront h

theorem announcing_pipeline :
    AnnouncingTriple (W := W) (C := C) (S := S) config events
      (fun tr _ => Announced config events tr)
      ((eventReceiverPipeline config streamName).whole events) [] :=
  (announcing_consume streamName List.prefix_rfl).bind fun _ state h =>
    announcing_silent (silent_finishReceiving streamName config state) h

theorem activities_of_silent {α : Type} {p q : PipelineProgram W C S α} {tr : PipelineTrace W C S}
    (hp : Silent p) (hrun : Program.Runs p tr q) : ∀ a ∈ tr, activities a.1 = [] :=
  fun _ ha => hp.allowed_of_mem hrun (fun _ _ => trivial) ha

/-- What the consumer does for one event: it announces it, and nothing else after that. -/
theorem announces_first {state state' : ReceiverState} {event : NormalizedEvent}
    {tr : PipelineTrace W C S}
    (hrun : Program.Runs (receiveEvent config streamName state event) tr (.pure state')) :
    ∃ activity depth later, activity.slot = event.slot ∧
      tr = ⟨.channelLen, depth⟩ :: ⟨.onActivity activity, ()⟩ :: later ∧
      ∀ a ∈ later, activities a.1 = [] := by
  cases hrun with
  | @step _ _ depth _ _ hrun =>
      cases hrun with
      | @step _ _ _ later _ hrun =>
          refine ⟨_, depth, later, rfl, rfl, activities_of_silent ?_ hrun⟩
          split
          · exact trivial
          cases state.batcher.push event with
          | mk full batcher =>
              cases full with
              | none => exact trivial
              | some batch =>
                  refine (silent_writeBatch streamName _ batch _).bind fun _ s _ => ?_
                  exact Program.triple_request rfl fun _ _ _ => trivial

end Consumer

/-! ## What a run has announced -/

section Reached

variable {π ρ Ω : Type} {config : PipelineConfig} {streamName : String}
  {setup : Setup PipelineCall (PipelineCall.Reply W C S) (PipelineError W C S) π NormalizedEvent ρ
    ReceiverState PipelineSummary Ω}
  {w : Ω} {s : π}
  {x y : System PipelineCall (PipelineCall.Reply W C S) (PipelineError W C S) π NormalizedEvent ρ
    ReceiverState PipelineSummary Ω}

/-- A consumer of the pipeline on a channel of the configured capacity. -/
structure Consuming (config : PipelineConfig) (streamName : String)
    (setup : Setup PipelineCall (PipelineCall.Reply W C S) (PipelineError W C S) π NormalizedEvent ρ
      ReceiverState PipelineSummary Ω) : Prop where
  worker : setup.worker = eventReceiverPipeline config streamName
  capacity : setup.capacity = config.channelCapacity
  depth : ∀ depth w c r w', setup.act depth w c r w' → ReadsDepth depth c r

theorem readsWithin_of_reaches (h : Consuming config streamName setup)
    (hreach : setup.Reaches (setup.init w s) x) :
    ∀ a ∈ x.trace, ReadsWithin config.channelCapacity a.1 a.2 := by
  intro a ha
  obtain ⟨_, _, _, _, -, -, ⟨n, hn, hact⟩, -⟩ :=
    (Setup.inv_reaches hreach).execution.world.split ha
  rw [h.capacity] at hn
  exact readsWithin_of_readsDepth hn (h.depth _ _ _ _ _ hact)

/-- Between two events, all that were received have been announced. -/
theorem announced_of_looping (h : Consuming config streamName setup)
    (hreach : setup.Reaches (setup.init w s) x) {state : ReceiverState}
    (hmain : x.main = .looping (.pure state)) : Announced config x.received x.trace := by
  have hloop := (Setup.inv_reaches hreach).execution.loop _ hmain
  rw [h.worker] at hloop
  exact (announcing_consume streamName List.prefix_rfl).post_of_records hloop
    (readsWithin_of_reaches h hreach)

theorem received_length_step (h : Consuming config streamName setup)
    (hreach : setup.Reaches (setup.init w s) x) (hstep : setup.Step x y)
    (hlength : x.received.length ≤ (announced x.trace).length + 1) :
    y.received.length ≤ (announced y.trace).length + 1 := by
  cases hstep with
  | receive hmain =>
      -- the only step that takes an event off the channel
      have hall := (announced_of_looping h hreach hmain).length_eq
      simp only [List.length_append, List.length_singleton, hall, le_refl]
  | callLooping | callClosing =>
      simp only [announced_append, List.length_append]
      omega
  | _ => exact hlength

/-- In every state, the events that were announced are those received, or all but the last. -/
theorem announced_of_reaches (h : Consuming config streamName setup)
    (hreach : setup.Reaches (setup.init w s) x) :
    ∃ seen, Announced config seen x.trace ∧
      (x.received = seen ∨ ∃ event, x.received = seen ++ [event]) := by
  have hruns := (Setup.inv_reaches hreach).execution.runs
  rw [h.worker] at hruns
  have hrecords := Program.performs_records (readsWithin_of_reaches h hreach) []
  rw [List.nil_append] at hrecords
  obtain ⟨seen, ⟨rest, hrest⟩, hseen⟩ := (announcing_pipeline streamName).world_of_runs
    (fun _ _ _ _ h hnext hact => announced_step hnext hact h) hruns hrecords
    ⟨[], List.nil_prefix, .nil⟩
  refine ⟨seen, hseen, ?_⟩
  have hlength : x.received.length ≤ (announced x.trace).length + 1 := by
    clear hruns hrecords hrest hseen
    induction hreach with
    | refl => exact Nat.zero_le _
    | tail hbefore hstep ih => exact received_length_step h hbefore hstep ih
  rw [hseen.length_eq, ← hrest, List.length_append] at hlength
  cases rest with
  | nil =>
      rw [List.append_nil] at hrest
      exact .inl hrest.symm
  | cons event rest =>
      obtain rfl : rest = [] := by
        rw [List.length_cons] at hlength
        exact List.length_eq_zero_iff.mp (by omega)
      exact .inr ⟨event, hrest.symm⟩

end Reached

end YellowstoneStream.Stream
