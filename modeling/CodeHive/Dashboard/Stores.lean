import CodeHive.Api.WsObserver
import Mathlib.Data.List.Induction
import Mathlib.Data.List.Nodup

/-! # The stores of the dashboard

`onWSMessage` of `lib/stores.ts` and what it makes of the messages that `broadcast` sends. The list
is shown by an `each` with the key `exec.id`; the payload of a message is an `ExecutionEvent`,
though, and has a `jobId` but no `id`. -/

namespace CodeHive.Dashboard.Stores

set_option autoImplicit false

open CodeHive.Js.Value CodeHive.Api.WsObserver

/-! ### The messages -/

/-- A property that is left out where it is `undefined`. -/
def property (key : String) : Option Json → List (String × Json)
  | some v => [(key, v)]
  | none => []

/-- `JSON.stringify` of an event, parsed again. -/
def eventJson (event : ExecutionEvent) : Json :=
  .obj ([("jobId", .str event.jobId), ("status", .str event.status)] ++
    property "stdout" (event.stdout.map .str) ++ property "stderr" (event.stderr.map .str) ++
    property "exitCode" (event.exitCode.map fun code => (code.map Json.num).getD .null) ++
    [("timestamp", .str event.timestamp)])

/-- The message that `broadcast` makes of an event. -/
def executionUpdate (event : ExecutionEvent) : Json :=
  .obj [("type", .str "execution_update"), ("payload", eventJson event)]

/-! ### The feed -/

/-- An entry of the feed: a payload, `none` where it is `undefined`. -/
abbrev Entry := Option Json

/-- `data.type === "execution_update" || data.type === "execution_complete"`. -/
def isUpdate (data : Json) : Bool :=
  match data.get "type" with
  | some (.str type) => type = "execution_update" || type = "execution_complete"
  | _ => false

/-- `onWSMessage`; `data` is `none` where `JSON.parse` throws. That `null` has no `type` is an
error, too, and ignored in the same way. -/
def onWSMessage (f : List Entry) (data : Option Json) : List Entry :=
  match data with
  | some data => if isUpdate data then slice (data.get "payload" :: f) (.fin 0) (.fin 50) else f
  | none => f

/-- `liveFeed` after these messages. -/
def liveFeed (messages : List (Option Json)) : List Entry := messages.foldl onWSMessage []

/-- `exec.id`. -/
def idOf (exec : Entry) : Option Json := exec.bind (Json.get "id")

/-- The payload of a message that is an update. -/
def updateOf (data : Option Json) : Option Entry :=
  match data with
  | some data => if isUpdate data then some (data.get "payload") else none
  | none => none

/-- The payloads received, newest first. -/
def received (messages : List (Option Json)) : List Entry :=
  (messages.filterMap updateOf).reverse

/-- `.slice(0, 50)`. -/
theorem slice_fifty (f : List Entry) : slice f (.fin 0) (.fin 50) = f.take 50 :=
  slice_natCast f 50

/-- **An update is put in front, and nothing else does anything.** -/
theorem onWSMessage_cases (f : List Entry) (data : Option Json) :
    (∃ payload, updateOf data = some payload ∧ onWSMessage f data = (payload :: f).take 50) ∨
      (updateOf data = none ∧ onWSMessage f data = f) := by
  unfold updateOf onWSMessage
  cases data with
  | none => exact Or.inr ⟨rfl, rfl⟩
  | some data =>
    dsimp only
    by_cases h : isUpdate data
    · rw [if_pos h, if_pos h, slice_fifty]
      exact Or.inl ⟨_, rfl, rfl⟩
    · rw [if_neg h, if_neg h]
      exact Or.inr ⟨rfl, rfl⟩

theorem received_concat (messages : List (Option Json)) (data : Option Json) :
    received (messages ++ [data]) = (updateOf data).toList ++ received messages := by
  unfold received
  rw [List.filterMap_append, List.reverse_append]
  cases h : updateOf data <;> simp [h]

/-- **The feed is the fifty newest payloads.** -/
theorem liveFeed_eq (messages : List (Option Json)) :
    liveFeed messages = (received messages).take 50 := by
  induction messages using List.reverseRecOn with
  | nil => rfl
  | append_singleton messages data ih =>
    have hlast : liveFeed (messages ++ [data]) = onWSMessage (liveFeed messages) data :=
      List.foldl_concat ..
    rw [hlast, received_concat]
    rcases onWSMessage_cases (liveFeed messages) data with ⟨payload, hp, h⟩ | ⟨hp, h⟩
    · rw [h, hp, ih]
      simp [List.take_take]
    · rw [h, hp, ih]
      rfl

/-! ### The keys -/

/-- **The feed can be keyed by execution**: every entry has an id, no two have the same, and each is
the newest of its execution, in the order in which they came. -/
structure Keyed (messages : List (Option Json)) (feed : List Entry) : Prop where
  bounded : feed.length ≤ 50
  defined : ∀ exec ∈ feed, (idOf exec).isSome
  distinct : (feed.map idOf).Nodup
  order : feed.Sublist (received messages)
  newest : ∀ exec ∈ feed, ∃ newer older, received messages = newer ++ exec :: older ∧
    ∀ exec' ∈ newer, idOf exec' ≠ idOf exec

/-- A message that is not as it should be: it does not parse, is of another type, or its payload has
no id. -/
def Malformed (data : Option Json) : Prop :=
  ∀ payload, updateOf data = some payload → idOf payload = none

/-- **Whatever is received**, it is the ids of the fifty newest payloads that decide. -/
theorem keyed_iff_ids (messages : List (Option Json)) : Keyed messages (liveFeed messages) ↔
    (∀ exec ∈ (received messages).take 50, (idOf exec).isSome) ∧
      (((received messages).take 50).map idOf).Nodup := by
  rw [liveFeed_eq]
  constructor
  · exact fun h => ⟨h.defined, h.distinct⟩
  · rintro ⟨hdefined, hdistinct⟩
    refine ⟨List.length_take_le _ _, hdefined, hdistinct, List.take_sublist _ _,
      fun exec hexec => ?_⟩
    obtain ⟨newer, older, hsplit⟩ := List.append_of_mem hexec
    refine ⟨newer, older ++ (received messages).drop 50, ?_, fun exec' hexec' heq => ?_⟩
    · rw [← List.cons_append, ← List.append_assoc, ← hsplit, List.take_append_drop]
    · rw [hsplit, List.map_append, List.nodup_append'] at hdistinct
      refine hdistinct.2.2 (List.mem_map_of_mem hexec') ?_
      rw [heq]
      exact List.mem_map_of_mem List.mem_cons_self

theorem fst_of_mem_property {key : String} {v : Option Json} {f : String × Json}
    (h : f ∈ property key v) : f.1 = key := by
  cases v with
  | none => cases h
  | some v => rw [List.mem_singleton.mp h]

/-- **What the API sends has no id**: an `ExecutionEvent` has a `jobId`. -/
theorem idOf_eventJson (event : ExecutionEvent) : idOf (some (eventJson event)) = none := by
  have hkeys : ∀ f ∈ [("jobId", Json.str event.jobId), ("status", .str event.status)] ++
      property "stdout" (event.stdout.map .str) ++ property "stderr" (event.stderr.map .str) ++
      property "exitCode" (event.exitCode.map fun code => (code.map Json.num).getD .null) ++
      [("timestamp", .str event.timestamp)], f.1 ≠ "id" := by
    intro f hf
    simp only [List.mem_append, List.mem_cons, List.not_mem_nil, or_false] at hf
    rcases hf with ((((rfl | rfl) | hf) | hf) | hf) | rfl
    · exact (by decide : "jobId" ≠ "id")
    · exact (by decide : "status" ≠ "id")
    · rw [fst_of_mem_property hf]
      decide
    · rw [fst_of_mem_property hf]
      decide
    · rw [fst_of_mem_property hf]
      decide
    · exact (by decide : "timestamp" ≠ "id")
  refine Option.map_eq_none_iff.mpr (List.find?_eq_none.mpr fun f hf => ?_)
  simpa using hkeys f (List.mem_reverse.mp hf)

theorem updateOf_executionUpdate (event : ExecutionEvent) :
    updateOf (some (executionUpdate event)) = some (some (eventJson event)) := rfl

/-- **No update leaves the feed keyed**: where what is received is malformed or sent by the API, the
feed can be keyed by execution exactly as long as nothing received is an update. -/
theorem keyed_iff {messages : List (Option Json)}
    (h : ∀ data ∈ messages, Malformed data ∨ ∃ event, data = some (executionUpdate event)) :
    Keyed messages (liveFeed messages) ↔ ∀ data ∈ messages, updateOf data = none := by
  have hreceived : received messages = [] ↔ ∀ data ∈ messages, updateOf data = none := by
    unfold received
    rw [List.reverse_eq_nil_iff, List.filterMap_eq_nil_iff]
  rw [← hreceived, keyed_iff_ids]
  constructor
  · rintro ⟨hdefined, -⟩
    by_contra hne
    obtain ⟨payload, older, hp⟩ := List.exists_cons_of_ne_nil hne
    -- the newest payload heads the feed and has no id
    have hmem : payload ∈ (received messages).take 50 := by
      rw [hp]
      exact List.mem_cons_self
    have hdata : payload ∈ messages.filterMap updateOf := by
      rw [← List.mem_reverse]
      exact List.mem_of_mem_take hmem
    obtain ⟨data, hdata, hupdate⟩ := List.mem_filterMap.mp hdata
    have hnone : idOf payload = none := by
      rcases h data hdata with hmal | ⟨event, rfl⟩
      · exact hmal payload hupdate
      · obtain rfl := Option.some.inj ((updateOf_executionUpdate event).symm.trans hupdate)
        exact idOf_eventJson event
    have hsome := hdefined payload hmem
    rw [hnone] at hsome
    cases hsome
  · intro hnil
    rw [hnil]
    exact ⟨by simp, by simp⟩

/-- Messages that are no updates. -/
def ignored : List (Option Json) := [none, some .null, some (.obj [("type", .str "ping")])]

theorem keyed_ignored : Keyed ignored (liveFeed ignored) := by
  have hnone : ∀ data ∈ ignored, updateOf data = none := by
    intro data hdata
    simp only [ignored, List.mem_cons, List.not_mem_nil, or_false] at hdata
    rcases hdata with rfl | rfl | rfl <;> rfl
  refine (keyed_iff fun data hdata => Or.inl fun payload hp => ?_).mpr hnone
  rw [hnone data hdata] at hp
  cases hp

/-- **The first update** of an execution has no key. -/
theorem not_keyed_update : ¬ ∀ messages : List (Option Json),
    (∀ data ∈ messages, Malformed data ∨ ∃ event, data = some (executionUpdate event)) →
    Keyed messages (liveFeed messages) := by
  intro h
  have hkeyed := h
    [some (executionUpdate ⟨"job-1", "running", none, none, none, "2024-01-01T00:00:00.000Z"⟩)]
    (by simp)
  exact absurd (hkeyed.defined _ List.mem_cons_self) (by decide)

end CodeHive.Dashboard.Stores
