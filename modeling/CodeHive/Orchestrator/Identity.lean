import CodeHive.Go.Fmt
import CodeHive.Orchestrator.FinalResults

/-! # Accepted ids

An id is taken from the body or made from the clock, and never checked against the ids in use. So
the accepted ids identify their submissions exactly where the clients and the clock keep them
apart. -/

namespace CodeHive.Orchestrator.Identity

set_option autoImplicit false

open CodeHive.Concurrency.Interleaving CodeHive.Go.Sync CodeHive.Lists.Slots
open CodeHive.Orchestrator.Types CodeHive.Orchestrator.Runner
open CodeHive.Orchestrator.ApiServer CodeHive.Orchestrator.Submissions
open CodeHive.Orchestrator.StatusAnswers CodeHive.Orchestrator.FinalResults

/-! ### Two requests -/

/-- **Two requests are kept apart**: `x` and `y` are the ids in their bodies, `t` and `u` the readings
of the clock. -/
structure Apart (x : String) (t : Time) (y : String) (u : Time) : Prop where
  supplied : x ≠ "" → y ≠ "" → x ≠ y
  generated : x = "" → y = "" → t ≠ u
  left : x ≠ "" → y = "" → x ≠ generatedID u
  right : x = "" → y ≠ "" → y ≠ generatedID t

theorem generatedID_inj {now now' : Time} (h : generatedID now = generatedID now') : now = now' :=
  Go.Fmt.toString_inj ((String.append_right_inj "job-").mp h)

theorem apart_iff {x y : String} {t u : Time} : Apart x t y u ↔ idOf x t ≠ idOf y u := by
  unfold idOf
  constructor
  · rintro ⟨hsupplied, hgenerated, hleft, hright⟩
    split
    · next hx =>
      split
      · next hy => exact fun h => hgenerated hx hy (generatedID_inj h)
      · next hy => exact fun h => hright hx hy h.symm
    · next hx =>
      split
      · next hy => exact hleft hx hy
      · next hy => exact hsupplied hx hy
  · intro h
    refine ⟨fun hx hy => ?_, fun hx hy => ?_, fun hx hy => ?_, fun hx hy => ?_⟩
    · rwa [if_neg hx, if_neg hy] at h
    · rw [if_pos hx, if_pos hy] at h
      exact fun htu => h (congrArg generatedID htu)
    · rwa [if_neg hx, if_pos hy] at h
    · rw [if_pos hx, if_neg hy] at h
      exact Ne.symm h

/-! ### The submissions of a run -/

/-- A submission that was answered with 202, and the id it was given. -/
def returnedOf : ApiServer.Event → Option (ℕ × String)
  | .accepted h ⟨202, .accepted id _⟩ => some (h, id)
  | _ => none

/-- The ids returned with 202, in order. -/
def returnedIds (es : History) : List String := (es.filterMap returnedOf).map Prod.snd

/-- Submission `h` was answered with 202. -/
def Accepted (es : History) (h : ℕ) : Prop := ∃ reply, .accepted h reply ∈ es

/-- **The accepted ids identify one submission each**: they are pairwise distinct, and of two
accepted submissions only one stores a result under an id, or saves a row with it. -/
structure Identified (es : History) : Prop where
  distinct : (returnedIds es).Nodup
  stored : ∀ h h' id r r', Accepted es h → Accepted es h' → .stored h id r ∈ es →
    .stored h' id r' ∈ es → h = h'
  saved : ∀ h h' (r r' : ExecutionResult), Accepted es h → Accepted es h' → .saved h r ∈ es →
    .saved h' r' ∈ es → r.ID = r'.ID → h = h'

/-- Any two accepted requests are kept apart. -/
def KeptApart (es : History) : Prop :=
  ∀ h h' supplied now supplied' now', h ≠ h' → Accepted es h → Accepted es h' →
    .received h supplied now ∈ es → .received h' supplied' now' ∈ es →
    Apart supplied now supplied' now'

section
variable {n : ℕ} {db : Option Rows} {es : History} {s : Server} {h : ℕ}

theorem mem_receivedBy {x : String × Time} :
    x ∈ es.filterMap (receivedBy h) ↔ .received h x.1 x.2 ∈ es :=
  mem_filterMap_iff (g := fun x : String × Time => ApiServer.Event.received h x.1 x.2)
    fun e x => by cases e <;> simp [receivedBy, Prod.ext_iff]

theorem mem_acceptedBy {reply : Reply} :
    reply ∈ es.filterMap (acceptedBy h) ↔ .accepted h reply ∈ es :=
  mem_filterMap_iff fun e reply => by cases e <;> simp [acceptedBy]

/-- **An accepted submission** was made with an id and at a time that give it its id, and is
answered with that id, once. -/
theorem Inv.accepted (hi : Inv es s) (ha : Accepted es h) :
    ∃ x supplied now, s.submissions[h]? = some x ∧ x.req.ID = idOf supplied now ∧
      (∀ y u, .received h y u ∈ es ↔ (y, u) = (supplied, now)) ∧
      es.filterMap (acceptedBy h) = [acceptance x.req.ID] := by
  obtain ⟨reply, he⟩ := ha
  have hlt := hi.made _ he h rfl
  have hx := List.getElem?_eq_getElem hlt
  have ht := hi.track h _ hx
  obtain ⟨supplied, now, hrec, hid⟩ := ht.received
  refine ⟨_, supplied, now, hx, hid, fun y u => ?_, ?_⟩
  · rw [← List.mem_singleton, ← hrec]
    exact (mem_receivedBy (x := (y, u))).symm
  · have hmem := mem_acceptedBy.mpr he
    have hacc := ht.accepted
    split at hacc
    · exact hacc
    · rw [hacc] at hmem
      cases hmem

theorem mem_returned (hi : Inv es s) {id : String} :
    (h, id) ∈ es.filterMap returnedOf ↔ .accepted h (acceptance id) ∈ es := by
  rw [List.mem_filterMap]
  constructor
  · rintro ⟨e, he, hr⟩
    cases e with
    | accepted k reply =>
      obtain ⟨x, -, -, -, -, -, hone⟩ := Inv.accepted hi ⟨reply, he⟩
      have hmem := mem_acceptedBy.mpr he
      rw [hone, List.mem_singleton] at hmem
      subst hmem
      cases hr
      exact he
    | _ => cases hr
  · exact fun he => ⟨_, he, rfl⟩

/-- The ids returned are distinct exactly where no two submissions are given the same. -/
theorem distinct_iff (hi : Inv es s) : (returnedIds es).Nodup ↔
    ∀ h h' id, .accepted h (acceptance id) ∈ es → .accepted h' (acceptance id) ∈ es → h = h' := by
  have hkeys : ((es.filterMap returnedOf).map Prod.fst).Nodup := by
    refine nodup_keys (g := acceptedBy) (fun e k id he => ?_) fun k => ?_
    · cases e with
      | accepted k' reply =>
        unfold returnedOf at he
        split at he
        · next heq => cases he; cases heq; simp [acceptedBy]
        · cases he
      | _ => cases he
    · by_cases ha : Accepted es k
      · obtain ⟨x, -, -, -, -, -, hone⟩ := Inv.accepted hi ha
        rw [hone]
        exact Nat.le_refl 1
      · have hnil : es.filterMap (acceptedBy k) = [] :=
          List.eq_nil_iff_forall_not_mem.mpr fun reply hr => ha ⟨reply, mem_acceptedBy.mp hr⟩
        rw [hnil]
        exact Nat.zero_le 1
  rw [returnedIds, nodup_values_iff hkeys]
  simp only [mem_returned hi]

/-- **An accepted submission stores its result under the id it was answered with.** -/
theorem accepted_of_stored (hi : Inv es s) (ha : Accepted es h) {id : String}
    {r : ExecutionResult} (he : .stored h id r ∈ es) : .accepted h (acceptance id) ∈ es := by
  obtain ⟨x, supplied, now, hx, -, -, hone⟩ := Inv.accepted hi ha
  obtain ⟨y, hy, hid, -⟩ := hi.stored he
  obtain rfl : x = y := Option.some.inj (hx.symm.trans hy)
  rw [← hid]
  exact mem_acceptedBy.mp (by rw [hone]; exact List.mem_singleton_self _)

/-- A collector that saves a result has stored it. -/
theorem stored_of_saving (hi : Inv es s) {s' : Server} {new : History}
    (hm : ApiServer.Move s s' new) {r : ExecutionResult} (he : .saved h r ∈ new) :
    ∃ id, .stored h id r ∈ es := by
  cases hm with
  | @save k x result hx hp =>
    cases List.mem_singleton.mp he
    have hc := (hi.track h x hx).collected
    rw [hp] at hc
    exact ⟨_, mem_storedBy.mp (by rw [hc.2]; exact List.mem_singleton_self _)⟩
  | collect hx hp => cases he
  | drop hx hp => cases he
  | hit hload => simp [Server.tell] at he
  | miss hload hdb => simp [Server.tell] at he
  | _ => simp at he

/-- **A row is saved for a result that was stored**, under the id of the result. -/
theorem stored_of_saved (hr : Reaches server (start n db) es s) {r : ExecutionResult}
    (he : .saved h r ∈ es) : .stored h r.ID r ∈ es := by
  have hstored : ∃ id, .stored h id r ∈ es := by
    refine hr.keeps (I := fun es _ => .saved h r ∈ es → ∃ id, .stored h id r ∈ es)
      (fun he => (by cases he)) (fun es s l s' new hr ih hs he => ?_) he
    have hbefore : ∃ id, .stored h id r ∈ es := by
      rcases List.mem_append.mp he with he | he
      · exact ih he
      · exact stored_of_saving (inv hr) (move_of_step hs) he
    exact hbefore.imp fun id hid => List.mem_append_left _ hid
  obtain ⟨id, he⟩ := hstored
  obtain ⟨x, hx, hid, -, hdel, -⟩ := (inv hr).stored he
  rw [((outcome_of_delivered hr hx hdel).status hx).1, hid]
  exact he

theorem keptApart_iff (hi : Inv es s) : KeptApart es ↔
    ∀ h h' id, .accepted h (acceptance id) ∈ es → .accepted h' (acceptance id) ∈ es → h = h' := by
  have hidOf : ∀ k id, .accepted k (acceptance id) ∈ es → ∃ supplied now,
      .received k supplied now ∈ es ∧ id = idOf supplied now := by
    intro k id he
    obtain ⟨x, supplied, now, -, hid, hrec, hone⟩ := Inv.accepted hi ⟨_, he⟩
    have hmem := mem_acceptedBy.mpr he
    rw [hone, List.mem_singleton] at hmem
    refine ⟨supplied, now, (hrec supplied now).mpr rfl, ?_⟩
    cases hmem
    exact hid
  constructor
  · intro hk h h' id he he'
    obtain ⟨x, t, hx, rfl⟩ := hidOf h id he
    obtain ⟨y, u, hy, hid⟩ := hidOf h' _ he'
    by_contra hne
    exact apart_iff.mp (hk h h' x t y u hne ⟨_, he⟩ ⟨_, he'⟩ hx hy) hid
  · intro hk h h' x t y u hne ha ha' hx hy
    refine apart_iff.mpr fun hid => hne ?_
    have hret : ∀ k, Accepted es k → ∀ z v, .received k z v ∈ es →
        .accepted k (acceptance (idOf z v)) ∈ es := by
      intro k hk z v hz
      obtain ⟨w, supplied, now, -, hid, hrec, hone⟩ := Inv.accepted hi hk
      obtain ⟨rfl, rfl⟩ := Prod.mk.inj ((hrec z v).mp hz)
      refine mem_acceptedBy.mp ?_
      rw [hone, hid]
      exact List.mem_singleton_self _
    exact hk h h' (idOf x t) (hret h ha x t hx) (hid ▸ hret h' ha' y u hy)

end

/-- **Accepted execution ids identify one submission** in a run exactly where any two accepted
requests are kept apart: their own ids differ, their readings of the clock differ where both ids
are generated, and neither supplies the id that the other is given by the clock. -/
theorem identified_iff {n : ℕ} {db : Option Rows} {es : History} {s : Server}
    (h : Reaches server (start n db) es s) : Identified es ↔ KeptApart es := by
  have hi := inv h
  rw [keptApart_iff hi]
  constructor
  · exact fun hid => (distinct_iff hi).mp hid.distinct
  · intro hk
    have hstored : ∀ k k' id r r', Accepted es k → Accepted es k' → .stored k id r ∈ es →
        .stored k' id r' ∈ es → k = k' := fun k k' id r r' ha ha' he he' =>
      hk k k' id (accepted_of_stored hi ha he) (accepted_of_stored hi ha' he')
    refine ⟨(distinct_iff hi).mpr hk, hstored, fun k k' r r' ha ha' he he' hid => ?_⟩
    exact hstored k k' r.ID r r' ha ha' (stored_of_saved h he) (hid ▸ stored_of_saved h he')

/-- The id and the time of a submission. -/
def receivedOf : ApiServer.Event → Option (ℕ × String × Time)
  | .received h supplied now => some (h, supplied, now)
  | _ => none

theorem identified_run : ∃ es s, server.run (start 2 none) (schedule "a" "b") = some (s, es) ∧
    returnedIds es = ["a", "b"] ∧ Identified es := by
  have hrun : ∃ es s, server.run (start 2 none) (schedule "a" "b") = some (s, es) ∧
      returnedIds es = ["a", "b"] ∧ es.filterMap receivedOf = [(0, "a", 1), (1, "b", 1)] :=
    ⟨_, _, rfl, rfl, rfl⟩
  obtain ⟨es, s, hs, hids, hrec⟩ := hrun
  refine ⟨es, s, hs, hids, (identified_iff (reaches_of_run hs)).mpr ?_⟩
  intro h h' x t y u hne _ _ hx hy
  have hmem : ∀ h x t, .received h x t ∈ es → (h, x, t) = (0, "a", 1) ∨ (h, x, t) = (1, "b", 1) := by
    intro h x t he
    have hm : (h, x, t) ∈ es.filterMap receivedOf := List.mem_filterMap.mpr ⟨_, he, rfl⟩
    simpa [hrec] using hm
  rcases hmem h x t hx with hx | hx <;> rcases hmem h' y u hy with hy | hy <;> cases hx <;> cases hy
  · exact absurd rfl hne
  · exact apart_iff.mpr (by decide)
  · exact apart_iff.mpr (by decide)
  · exact absurd rfl hne

/-- **Two clients send the same id.** Both are answered 202, and the result that was told for the one
gives way to the result of the other. -/
theorem result_replaced : ∃ es s, Reaches server (start 2 none) es s ∧
    returnedIds es = ["a", "a"] ∧ ¬ Identified es ∧
    .told 0 "a" ⟨200, .result (result "a" "2")⟩ ∈ es ∧
    .told 1 "a" ⟨200, .result (result "a" "1")⟩ ∈ es := by
  have hrun : ∃ es s, server.run (start 2 none) (schedule "a" "a") = some (s, es) ∧
      returnedIds es = ["a", "a"] ∧
      es[19]? = some (.told 0 "a" ⟨200, .result (result "a" "2")⟩) ∧
      es[23]? = some (.told 1 "a" ⟨200, .result (result "a" "1")⟩) :=
    ⟨_, _, rfl, rfl, rfl, rfl⟩
  obtain ⟨es, s, hs, hids, h₁, h₂⟩ := hrun
  refine ⟨es, s, reaches_of_run hs, hids, fun hid => ?_, List.mem_of_getElem? h₁,
    List.mem_of_getElem? h₂⟩
  have hdistinct := hid.distinct
  rw [hids] at hdistinct
  exact absurd hdistinct (by decide)

end CodeHive.Orchestrator.Identity
