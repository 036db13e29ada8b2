import CodeHive.Api.WsObserver

/-! # Who is sent what

What a client is sent, read off the history of connections, closed sockets and emitted events alone:
the events that were emitted while it was registered and open and that pass its filter. The observer
sends exactly these. -/

namespace CodeHive.Api.FanOut

set_option autoImplicit false

open CodeHive.Concurrency.Interleaving CodeHive.Api.WsObserver

/-! ### The history -/

def isConnect : Label → Bool
  | .client (.connect _) => true
  | _ => false

/-- How many clients have connected. -/
def connections (before : List Label) : ℕ := before.countP isConnect

/-- Client `u` is sent nothing after this: its socket closes, it is removed, or all are. -/
inductive Ends (u : ℕ) : Label → Prop where
  | leavesOpen {readyState : ReadyState} (h : readyState ≠ .OPEN) :
      Ends u (.client (.leavesOpen u readyState))
  | gone : Ends u (.client (.gone u))
  | destroy : Ends u (.client .destroy)

/-- **Client `u` is registered and its socket is open**: it has connected with this filter, and
nothing has ended that since. -/
def OpenWith (u : ℕ) (jobFilter : Option String) (before : List Label) : Prop :=
  ∃ old recent, before = old ++ .client (.connect jobFilter) :: recent ∧ connections old = u ∧
    ∀ l ∈ recent, ¬ Ends u l

/-- An event of this job is due to client `u`: there was no `destroy`, and the filter of the client is
absent, empty or this job. -/
def DueTo (u : ℕ) (jobId : String) (before : List Label) : Prop :=
  .client .destroy ∉ before ∧ ∃ jobFilter, OpenWith u jobFilter before ∧
    (jobFilter = none ∨ jobFilter = some "" ∨ jobFilter = some jobId)

open Classical in
/-- **The events that are due to client `u`**, in the order in which they are emitted. -/
noncomputable def due (u : ℕ) (before : List Label) : List Label → List ExecutionEvent
  | [] => []
  | .emitExecutionUpdate event :: ls =>
    (if DueTo u event.jobId before then [event] else []) ++
      due u (before ++ [.emitExecutionUpdate event]) ls
  | .client x :: ls => due u (before ++ [.client x]) ls

section
variable {u : ℕ} {jobFilter : Option String} {before : List Label} {l : Label} {s : State}

/-- One more step. -/
theorem openWith_concat : OpenWith u jobFilter (before ++ [l]) ↔
    (OpenWith u jobFilter before ∧ ¬ Ends u l) ∨
      (l = .client (.connect jobFilter) ∧ connections before = u) := by
  constructor
  · rintro ⟨old, recent, hbefore, hu, hrecent⟩
    rcases List.eq_nil_or_concat recent with rfl | ⟨recent, l', rfl⟩
    · obtain ⟨rfl, hl⟩ := List.append_inj' hbefore rfl
      exact Or.inr ⟨(List.cons.inj hl).1, hu⟩
    · rw [List.concat_eq_append] at hbefore hrecent
      rw [← List.cons_append, ← List.append_assoc] at hbefore
      obtain ⟨rfl, hl⟩ := List.append_inj' hbefore rfl
      obtain rfl : l = l' := (List.cons.inj hl).1
      rw [List.forall_mem_append, List.forall_mem_singleton] at hrecent
      exact Or.inl ⟨⟨old, recent, rfl, hu, hrecent.1⟩, hrecent.2⟩
  · rintro (⟨⟨old, recent, rfl, hu, hrecent⟩, hl⟩ | ⟨rfl, hu⟩)
    · refine ⟨old, recent ++ [l], by simp, hu, ?_⟩
      rw [List.forall_mem_append, List.forall_mem_singleton]
      exact ⟨hrecent, hl⟩
    · exact ⟨before, [], rfl, hu, by simp⟩

/-- A client that is open is one of those that have connected. -/
theorem OpenWith.lt (h : OpenWith u jobFilter before) : u < connections before := by
  obtain ⟨old, recent, rfl, rfl, -⟩ := h
  unfold connections
  rw [List.countP_append, List.countP_cons_of_pos rfl]
  omega

end

/-! ### What is due -/

section
variable {u : ℕ} {before ls : List Label}

theorem due_append (u : ℕ) (before ls ls' : List Label) :
    due u before (ls ++ ls') = due u before ls ++ due u (before ++ ls) ls' := by
  induction ls generalizing before with
  | nil => simp [due]
  | cons l ls ih =>
    cases l with
    | client x =>
      rw [List.cons_append, due, due, ih, List.append_assoc]
      rfl
    | emitExecutionUpdate event =>
      rw [List.cons_append, due, due, ih, List.append_assoc, List.append_assoc]
      rfl

/-- After `destroy` nothing is due. -/
theorem due_of_destroyed (h : .client .destroy ∈ before) : due u before ls = [] := by
  induction ls generalizing before with
  | nil => rfl
  | cons l ls ih =>
    have hnext := ih (List.mem_append_left [l] h)
    cases l with
    | client x => exact hnext
    | emitExecutionUpdate event =>
      rw [due, hnext, if_neg fun hdue => hdue.1 h]
      rfl

/-- What is due was emitted at a moment at which it was. -/
theorem exists_of_mem_due {event : ExecutionEvent} (h : event ∈ due u before ls) :
    ∃ ls₁ ls₂, ls = ls₁ ++ .emitExecutionUpdate event :: ls₂ ∧
      DueTo u event.jobId (before ++ ls₁) := by
  induction ls generalizing before with
  | nil => exact absurd h List.not_mem_nil
  | cons l ls ih =>
    have hlater : event ∈ due u (before ++ [l]) ls →
        ∃ ls₁ ls₂, l :: ls = ls₁ ++ .emitExecutionUpdate event :: ls₂ ∧
          DueTo u event.jobId (before ++ ls₁) := by
      intro hmem
      obtain ⟨ls₁, ls₂, rfl, hdue⟩ := ih hmem
      rw [List.append_assoc] at hdue
      exact ⟨l :: ls₁, ls₂, rfl, hdue⟩
    cases l with
    | client x => exact hlater h
    | emitExecutionUpdate e =>
      rcases List.mem_append.mp h with hnow | hmem
      · by_cases hdue : DueTo u e.jobId before
        · rw [if_pos hdue] at hnow
          obtain rfl := List.mem_singleton.mp hnow
          exact ⟨[], ls, rfl, by rw [List.append_nil]; exact hdue⟩
        · rw [if_neg hdue] at hnow
          exact absurd hnow List.not_mem_nil
      · exact hlater hmem

/-- Client `u` has connected with this filter. -/
def ConnectedWith (u : ℕ) (jobFilter : Option String) (ls : List Label) : Prop :=
  ∃ old recent, ls = old ++ .client (.connect jobFilter) :: recent ∧ connections old = u

theorem connections_lt_of_append (old c : List Label) (f : Option String) :
    connections old < connections (old ++ .client (.connect f) :: c) := by
  unfold connections
  rw [List.countP_append, List.countP_cons_of_pos rfl]
  omega

/-- A client connects once. -/
theorem ConnectedWith.unique {f f' : Option String} (h : ConnectedWith u f ls)
    (h' : ConnectedWith u f' ls) : f = f' := by
  obtain ⟨old, recent, rfl, hu⟩ := h
  obtain ⟨old', recent', hls, hu'⟩ := h'
  rcases List.append_eq_append_iff.mp hls with ⟨c, rfl, hc⟩ | ⟨c, rfl, hc⟩
  · rcases c with _ | ⟨l, c⟩
    · cases hc
      rfl
    · cases hc
      have hlt := connections_lt_of_append old c f
      omega
  · rcases c with _ | ⟨l, c⟩
    · cases hc
      rfl
    · cases hc
      have hlt := connections_lt_of_append old' c f'
      omega

theorem OpenWith.connectedWith {f : Option String} (h : OpenWith u f before) (ls : List Label) :
    ConnectedWith u f (before ++ ls) := by
  obtain ⟨old, recent, rfl, hu, -⟩ := h
  exact ⟨old, recent ++ ls, by simp, hu⟩

/-- **Nothing of another job is due** to a client whose filter names one. -/
theorem jobId_of_mem_due {j : String} (hc : ConnectedWith u (some j) ls) (hj : j ≠ "")
    {event : ExecutionEvent} (h : event ∈ due u [] ls) : event.jobId = j := by
  obtain ⟨ls₁, ls₂, rfl, -, f, ho, hw⟩ := exists_of_mem_due h
  rw [List.nil_append] at ho
  obtain rfl := (ho.connectedWith _).unique hc
  have hjob : j = "" ∨ j = event.jobId := by simpa using hw
  exact (hjob.resolve_left hj).symm

end

/-! ### The observer -/

/-- Client `u` has an entry with this filter, and its socket is open. -/
def HasOpen (s : State) (u : ℕ) (jobFilter : Option String) : Prop :=
  ∃ c ∈ s.entry u, c.readyState = .OPEN ∧ c.jobFilter = jobFilter

section
variable {s : State} {u : ℕ} {jobFilter : Option String}

/-- A new client has an entry of its own. -/
theorem entry_connect_eq (hk : Known s) (f : Option String) (u : ℕ) :
    (s.client (.connect f)).entry u = if u = s.next then [⟨s.next, .OPEN, f⟩] else s.entry u := by
  have happend : (s.client (.connect f)).entry u =
      s.entry u ++ [⟨s.next, .OPEN, f⟩].filter (·.id = u) := List.filter_append ..
  rw [happend]
  by_cases hu : u = s.next
  · have hold : s.entry u = [] := by
      refine List.filter_eq_nil_iff.mpr fun c hc => ?_
      have hlt := hk c hc
      simp only [decide_eq_true_eq]
      omega
    rw [hold, if_pos hu]
    simp [hu]
  · rw [if_neg hu, List.filter_cons_of_neg (by simpa using Ne.symm hu), List.filter_nil,
      List.append_nil]

theorem hasOpen_connect (hk : Known s) (f : Option String) :
    HasOpen (s.client (.connect f)) u jobFilter ↔
      if u = s.next then f = jobFilter else HasOpen s u jobFilter := by
  unfold HasOpen
  rw [entry_connect_eq hk]
  split
  · simp
  · rfl

theorem hasOpen_leavesOpen (client : ℕ) (readyState : ReadyState) :
    HasOpen (s.client (.leavesOpen client readyState)) u jobFilter ↔
      HasOpen s u jobFilter ∧ ¬ Ends u (.client (.leavesOpen client readyState)) := by
  have hends : Ends u (.client (.leavesOpen client readyState)) ↔
      u = client ∧ readyState ≠ .OPEN := by
    constructor
    · intro h
      cases h with
      | leavesOpen h => exact ⟨rfl, h⟩
    · rintro ⟨rfl, h⟩
      exact .leavesOpen h
  unfold HasOpen
  rw [entry_leavesOpen, hends]
  by_cases h : u = client ∧ readyState ≠ .OPEN
  · simp only [if_pos h]
    simp [h]
  · simp only [if_neg h, List.map_id']
    simp [h]

theorem hasOpen_gone (client : ℕ) : HasOpen (s.client (.gone client)) u jobFilter ↔
    HasOpen s u jobFilter ∧ ¬ Ends u (.client (.gone client)) := by
  have hends : Ends u (.client (.gone client)) ↔ u = client := by
    constructor
    · intro h
      cases h
      rfl
    · rintro rfl
      exact .gone
  unfold HasOpen
  rw [entry_gone, hends]
  by_cases h : u = client
  · simp [h]
  · simp [h]

theorem hasOpen_destroy : HasOpen (s.client .destroy) u jobFilter ↔
    HasOpen s u jobFilter ∧ ¬ Ends u (.client .destroy) := by
  refine iff_of_false ?_ fun h => h.2 .destroy
  rintro ⟨c, hc, -⟩
  cases hc

end

/-- **The observer's map says what the history says.** -/
structure Mirrors (before : List Label) (s : State) : Prop where
  next : s.next = connections before
  subscribed : s.subscribed = true ↔ .client .destroy ∉ before
  known : Known s
  single : ∀ u, (s.entry u).length ≤ 1
  openWith : ∀ u jobFilter, HasOpen s u jobFilter ↔ OpenWith u jobFilter before

section
variable {before : List Label} {s : State}

theorem Mirrors.init : Mirrors [] .init where
  next := rfl
  subscribed := by simp [State.init]
  known _ hc := absurd hc List.not_mem_nil
  single _ := Nat.zero_le 1
  openWith u jobFilter := by
    refine iff_of_false ?_ ?_
    · rintro ⟨c, hc, -⟩
      exact absurd hc List.not_mem_nil
    · rintro ⟨old, recent, h, -⟩
      exact absurd h (by simp)

theorem connections_concat (before : List Label) (l : Label) : connections (before ++ [l]) =
    connections before + if isConnect l then 1 else 0 := by
  unfold connections
  rw [List.countP_append, List.countP_singleton]

theorem Mirrors.connect (h : Mirrors before s) (jobFilter : Option String) :
    Mirrors (before ++ [.client (.connect jobFilter)]) (s.client (.connect jobFilter)) where
  next := by
    rw [connections_concat, ← h.next]
    rfl
  subscribed := by
    show s.subscribed = true ↔ _
    rw [h.subscribed]
    simp
  known := known_client h.known _
  single u := by
    rw [entry_connect_eq h.known]
    split
    · exact le_rfl
    · exact h.single u
  openWith u f := by
    have hends : ¬ Ends u (.client (.connect jobFilter)) := fun h => by cases h
    rw [hasOpen_connect h.known, openWith_concat, ← h.next]
    split
    · next hu =>
      subst hu
      have hold : ¬ OpenWith s.next f before := fun ho => by
        have hlt := ho.lt
        rw [← h.next] at hlt
        omega
      simp [hold]
    · next hu =>
      rw [h.openWith]
      simp [hends, Ne.symm hu]

/-- A step that connects nobody and unsubscribes nothing. -/
theorem Mirrors.step {s' : State} {l : Label} (h : Mirrors before s) (hconnect : isConnect l = false)
    (hnext : s'.next = s.next)
    (hsub : s'.subscribed = true ↔ s.subscribed = true ∧ .client .destroy ≠ l)
    (hknown : Known s') (hsingle : ∀ u, (s'.entry u).length ≤ 1)
    (hopen : ∀ u f, HasOpen s' u f ↔ HasOpen s u f ∧ ¬ Ends u l) : Mirrors (before ++ [l]) s' where
  next := by rw [hnext, h.next, connections_concat, hconnect]; rfl
  subscribed := by
    rw [hsub, h.subscribed, List.mem_append, not_or, List.mem_singleton]
  known := hknown
  single := hsingle
  openWith u f := by
    rw [hopen, h.openWith, openWith_concat]
    refine (or_iff_left fun hl => ?_).symm
    rw [hl.1] at hconnect
    cases hconnect

theorem Mirrors.client (h : Mirrors before s) (x : ClientStep) :
    Mirrors (before ++ [.client x]) (s.client x) := by
  have hk := known_client h.known x
  cases x with
  | connect jobFilter => exact h.connect jobFilter
  | leavesOpen client readyState =>
    refine h.step rfl rfl (by simp [State.client]) hk (fun u => ?_)
      fun u f => hasOpen_leavesOpen client readyState
    rw [entry_leavesOpen, List.length_map]
    exact h.single u
  | gone client =>
    refine h.step rfl rfl (by simp [State.client]) hk (fun u => ?_) fun u f => hasOpen_gone client
    rw [entry_gone]
    split
    · exact Nat.zero_le 1
    · exact h.single u
  | destroy =>
    exact h.step rfl rfl (by simp [State.client]) hk (fun _ => Nat.zero_le 1)
      fun u f => hasOpen_destroy

theorem Mirrors.emit (h : Mirrors before s) (event : ExecutionEvent) :
    Mirrors (before ++ [.emitExecutionUpdate event]) s := by
  refine h.step rfl rfl (by simp) h.known h.single fun u f => ?_
  have hends : ¬ Ends u (.emitExecutionUpdate event) := fun h => by cases h
  exact (and_iff_left hends).symm

/-! ### What is sent -/

/-- What `client.jobFilter && client.jobFilter !== event.jobId` lets pass. -/
theorem wants_iff (jobFilter : Option String) (jobId : String) : wants jobFilter jobId = true ↔
    jobFilter = none ∨ jobFilter = some "" ∨ jobFilter = some jobId := by
  cases jobFilter with
  | none => simp [wants]
  | some f => simp [wants]

/-- An event is due to whom it would be sent. -/
theorem dueTo_iff (h : Mirrors before s) (u : ℕ) (jobId : String) :
    DueTo u jobId before ↔ s.subscribed = true ∧ ∃ c ∈ s.entry u, c.gets jobId = true := by
  unfold DueTo
  rw [h.subscribed]
  refine and_congr_right fun _ => ?_
  constructor
  · rintro ⟨f, ho, hw⟩
    obtain ⟨c, hc, hopen, rfl⟩ := (h.openWith u f).mpr ho
    exact ⟨c, hc, by simp [WsClient.gets, (wants_iff _ _).mpr hw, hopen]⟩
  · rintro ⟨c, hc, hgets⟩
    obtain ⟨hw, hopen⟩ := Bool.and_eq_true_iff.mp hgets
    exact ⟨c.jobFilter, (h.openWith u _).mp ⟨c, hc, of_decide_eq_true hopen, rfl⟩,
      (wants_iff _ _).mp hw⟩

open Classical in
/-- What client `u` is sent of an event. -/
theorem sentTo_emit (h : Mirrors before s) (u : ℕ) (event : ExecutionEvent) :
    sentTo u (s.emit event) = if DueTo u event.jobId before then [event] else [] := by
  rw [dueTo_iff h]
  unfold State.emit
  by_cases hsub : s.subscribed
  · rw [if_pos hsub, and_iff_right hsub]
    have hemitted : sentTo u (.emitted event :: broadcast s.clients event) =
        sentTo u (broadcast s.clients event) := rfl
    rw [hemitted, sentTo_broadcast_eq]
    have hsingle := h.single u
    rcases hentry : s.entry u with _ | ⟨c, _ | ⟨c', rest⟩⟩
    · simp
    · by_cases hgets : c.gets event.jobId <;> simp [hgets]
    · rw [hentry] at hsingle
      simp at hsingle
  · rw [if_neg hsub, if_neg fun h => hsub h.1]
    rfl

/-- **A run sends every client what is due to it.** -/
theorem run_eq_due (h : Mirrors before s) (ls : List Label) :
    ∃ s' es, observer.run s ls = some (s', es) ∧ ∀ u, sentTo u es = due u before ls := by
  induction ls generalizing before s with
  | nil => exact ⟨s, [], rfl, fun _ => rfl⟩
  | cons l ls ih =>
    cases l with
    | client x =>
      obtain ⟨s', es, hrun, hes⟩ := ih (h.client x)
      have hstep : observer.step s (.client x) = some (s.client x, []) := rfl
      exact ⟨s', es, Automaton.run_cons hstep hrun, hes⟩
    | emitExecutionUpdate event =>
      obtain ⟨s', es, hrun, hes⟩ := ih (h.emit event)
      refine ⟨s', s.emit event ++ es, Automaton.run_cons rfl hrun, fun u => ?_⟩
      rw [sentTo_append, sentTo_emit h, hes]
      rfl

end

/-- **The fan-out is exact**: in every run each client is sent, each once and in the order of
emission, the events emitted while it is registered and open that its filter lets pass; none of
another job, where its filter names one; and nothing after `destroy`. -/
theorem fanOut_exact (ls : List Label) (u : ℕ) :
    ∃ s es, observer.run .init ls = some (s, es) ∧ sentTo u es = due u [] ls ∧
      (∀ j, ConnectedWith u (some j) ls → j ≠ "" → ∀ event ∈ sentTo u es, event.jobId = j) ∧
      ∀ old recent, ls = old ++ .client .destroy :: recent → sentTo u es = due u [] old := by
  obtain ⟨s, es, hrun, hes⟩ := run_eq_due .init ls
  refine ⟨s, es, hrun, hes u, fun j hc hj event he => ?_, fun old recent hls => ?_⟩
  · rw [hes u] at he
    exact jobId_of_mem_due hc hj he
  · have hdestroyed : .client .destroy ∈ ([] ++ old) ++ [.client .destroy] := by simp
    rw [hes u, hls, due_append, due, due_of_destroyed hdestroyed, List.append_nil]

end CodeHive.Api.FanOut
