import CodeHive.Concurrency.Interleaving
import CodeHive.Js.Value

/-! # The observer of the WebSocket clients

`services/events.ts` and `services/ws-observer.ts`: what is emitted on the event bus is sent to the
clients that want it. A client is known by the number of its connection, which stands for the id
that `crypto.randomUUID` gives it. -/

namespace CodeHive.Api.WsObserver

set_option autoImplicit false

open CodeHive.Concurrency.Interleaving CodeHive.Js.Value

/-- An event of the bus. -/
structure ExecutionEvent where
  jobId : String
  status : String
  stdout : Option String := none
  stderr : Option String := none
  exitCode : Option (Option Finite) := none
  timestamp : String
  deriving DecidableEq

/-- `socket.readyState`, once the handler of `/ws` is called. -/
inductive ReadyState where
  | OPEN
  | CLOSING
  | CLOSED
  deriving DecidableEq

structure WsClient where
  id : ℕ
  readyState : ReadyState
  jobFilter : Option String
  deriving DecidableEq

structure State where
  /-- The map, in the order of insertion. -/
  clients : List WsClient
  /-- Whether `init` has subscribed to the bus and `destroy` has not unsubscribed. -/
  subscribed : Bool
  next : ℕ

/-- `init` has been called. -/
def State.init : State := ⟨[], true, 0⟩

/-- What is seen of the observer. -/
inductive Event where
  /-- `emitExecutionUpdate` is called while the observer is subscribed. -/
  | emitted (event : ExecutionEvent)
  | sent (client : ℕ) (event : ExecutionEvent)
  deriving DecidableEq

/-- `client.jobFilter && client.jobFilter !== jobId` does not hold. -/
def wants (jobFilter : Option String) (jobId : String) : Bool :=
  match jobFilter with
  | some f => f = "" || f = jobId
  | none => true

/-- Whether an event is sent to a client. -/
def WsClient.gets (c : WsClient) (jobId : String) : Bool :=
  wants c.jobFilter jobId && c.readyState = .OPEN

/-- `broadcast`. -/
def broadcast (clients : List WsClient) (event : ExecutionEvent) : List Event :=
  (clients.filter (·.gets event.jobId)).map fun c => .sent c.id event

/-- `GET /ws` with its parameter `jobId`. -/
def State.connect (s : State) (jobFilter : Option String) : State :=
  { s with clients := s.clients ++ [⟨s.next, .OPEN, jobFilter⟩], next := s.next + 1 }

/-- What happens to the clients, apart from what is sent to them. -/
inductive ClientStep where
  | connect (jobFilter : Option String)
  /-- The socket of a client begins to close, or is closed. -/
  | leavesOpen (client : ℕ) (readyState : ReadyState)
  /-- `close` or `error` of a socket. -/
  | gone (client : ℕ)
  | destroy

def State.client (s : State) : ClientStep → State
  | .connect jobFilter => s.connect jobFilter
  | .leavesOpen client readyState =>
    { s with clients := s.clients.map fun c =>
        if c.id = client ∧ readyState ≠ .OPEN then { c with readyState } else c }
  | .gone client => { s with clients := s.clients.filter (·.id ≠ client) }
  | .destroy => { s with clients := [], subscribed := false }

/-- The callback of `subscribe`. -/
def State.emit (s : State) (event : ExecutionEvent) : List Event :=
  if s.subscribed then .emitted event :: broadcast s.clients event else []

inductive Label where
  | client (x : ClientStep)
  | emitExecutionUpdate (event : ExecutionEvent)

/-- **The observer.** -/
def observer : Automaton State Label Event where
  step s
    | .client x => some (s.client x, [])
    | .emitExecutionUpdate event => some (s, s.emit event)

/-! ### What is sent -/

/-- What was emitted. -/
def emittedIn (es : List Event) : List ExecutionEvent :=
  es.filterMap fun
    | .emitted event => some event
    | _ => none

/-- What was sent to a client. -/
def sentTo (u : ℕ) (es : List Event) : List ExecutionEvent :=
  es.filterMap fun
    | .sent client event => if client = u then some event else none
    | _ => none

theorem emittedIn_broadcast (clients : List WsClient) (event : ExecutionEvent) :
    emittedIn (broadcast clients event) = [] := by
  unfold emittedIn broadcast
  rw [List.filterMap_map]
  exact List.filterMap_none _

theorem emittedIn_append (es new : List Event) :
    emittedIn (es ++ new) = emittedIn es ++ emittedIn new := List.filterMap_append

theorem sentTo_append (u : ℕ) (es new : List Event) :
    sentTo u (es ++ new) = sentTo u es ++ sentTo u new := List.filterMap_append

/-- Client `u` is registered, and its socket is open. -/
def IsOpen (u : ℕ) (s : State) : Prop := ∃ c ∈ s.clients, c.id = u ∧ c.readyState = .OPEN

/-- The clients with the id `u`. -/
def State.entry (s : State) (u : ℕ) : List WsClient := s.clients.filter (·.id = u)

/-- Where client `u` with this filter stands. -/
structure Registered (u : ℕ) (jobFilter : Option String) (s : State) : Prop where
  older : u < s.next
  entry : s.entry u = [] ∨ ∃ readyState, s.entry u = [⟨u, readyState, jobFilter⟩]

/-- The ids of the clients are those given out. -/
def Known (s : State) : Prop := ∀ c ∈ s.clients, c.id < s.next

section
variable {u : ℕ} {jobFilter : Option String} {s s' : State}

theorem isOpen_iff : IsOpen u s ↔ ∃ c ∈ s.entry u, c.readyState = .OPEN := by
  unfold IsOpen State.entry
  simp only [List.mem_filter, decide_eq_true_eq, and_assoc]

/-- An open client has its one entry. -/
theorem Registered.entry_of_isOpen (h : Registered u jobFilter s) (ho : IsOpen u s) :
    s.entry u = [⟨u, .OPEN, jobFilter⟩] := by
  obtain ⟨c, hc, hopen⟩ := isOpen_iff.mp ho
  rcases h.entry with hnil | ⟨readyState, hone⟩
  · rw [hnil] at hc
    exact absurd hc List.not_mem_nil
  · rw [hone, List.mem_singleton] at hc
    rw [hc] at hopen
    rw [hone, ← hopen]

theorem known_client (h : Known s) (x : ClientStep) : Known (s.client x) := by
  intro c hc
  cases x with
  | connect jobFilter =>
    have hnext : (s.client (.connect jobFilter)).next = s.next + 1 := rfl
    rcases List.mem_append.mp hc with hc | hc
    · have hlt := h c hc
      omega
    · rw [List.mem_singleton.mp hc]
      exact Nat.lt_succ_self _
  | leavesOpen client readyState =>
    obtain ⟨c', hc', rfl⟩ := List.mem_map.mp hc
    have hid : (if c'.id = client ∧ readyState ≠ .OPEN then { c' with readyState } else c').id =
        c'.id := by split <;> rfl
    rw [hid]
    exact h c' hc'
  | gone client => exact h c (List.mem_of_mem_filter hc)
  | destroy => cases hc

theorem known {es : List Event} (h : Reaches observer .init es s) : Known s := by
  refine h.keeps (I := fun _ s => Known s) (fun _ hc => absurd hc List.not_mem_nil) ?_
  intro es s l s' new _ hk hs
  cases l with
  | client x =>
    cases hs
    exact known_client hk x
  | emitExecutionUpdate event =>
    cases hs
    exact hk

/-- A new client is registered. -/
theorem registered_connect (hk : Known s) (jobFilter : Option String) :
    Registered s.next jobFilter (s.connect jobFilter) := by
  refine ⟨Nat.lt_succ_self _, Or.inr ⟨.OPEN, ?_⟩⟩
  have hold : s.clients.filter (·.id = s.next) = [] := by
    refine List.filter_eq_nil_iff.mpr fun c hc => ?_
    have hlt := hk c hc
    simp only [decide_eq_true_eq]
    omega
  unfold State.entry State.connect
  dsimp only
  rw [List.filter_append, hold]
  simp

/-- A later connection leaves a client alone. -/
theorem entry_connect (hu : u < s.next) (f : Option String) :
    (s.client (.connect f)).entry u = s.entry u := by
  have hnew : ([⟨s.next, .OPEN, f⟩] : List WsClient).filter (·.id = u) = [] := by
    refine List.filter_eq_nil_iff.mpr fun c hc => ?_
    rw [List.mem_singleton.mp hc]
    simp only [decide_eq_true_eq]
    omega
  have happend : (s.client (.connect f)).entry u = s.entry u ++ _ := List.filter_append ..
  rw [happend, hnew, List.append_nil]

/-- The state of its own socket is what changes. -/
theorem entry_leavesOpen (client : ℕ) (readyState : ReadyState) :
    (s.client (.leavesOpen client readyState)).entry u = (s.entry u).map fun c =>
      if u = client ∧ readyState ≠ .OPEN then { c with readyState } else c := by
  have hmap : (s.client (.leavesOpen client readyState)).entry u = (s.entry u).map fun c =>
      if c.id = client ∧ readyState ≠ .OPEN then { c with readyState } else c := by
    unfold State.entry State.client
    dsimp only
    rw [List.filter_map]
    congr 1
    refine List.filter_congr fun c _ => ?_
    rw [Function.comp_apply]
    split <;> rfl
  refine hmap.trans (List.map_congr_left fun c hc => ?_)
  have hid : c.id = u := by simpa using (List.mem_filter.mp hc).2
  rw [hid]

/-- One that is gone is removed, and no other. -/
theorem entry_gone (client : ℕ) :
    (s.client (.gone client)).entry u = if u = client then [] else s.entry u := by
  by_cases h : u = client
  · rw [if_pos h]
    refine List.filter_eq_nil_iff.mpr fun c hc => ?_
    have hne : c.id ≠ client := by simpa using (List.mem_filter.mp hc).2
    simpa [h] using hne
  · rw [if_neg h]
    unfold State.entry State.client
    dsimp only
    rw [List.filter_filter]
    refine List.filter_congr fun c _ => ?_
    by_cases hc : c.id = u
    · simp [hc, h]
    · simp [hc]

/-- **What happens to a client**: nothing, or it is removed, or its socket closes. -/
theorem entry_client (hu : u < s.next) (x : ClientStep) :
    (s.client x).entry u = s.entry u ∨ (s.client x).entry u = [] ∨ ∃ readyState, readyState ≠ .OPEN ∧
      (s.client x).entry u = (s.entry u).map fun c => { c with readyState } := by
  cases x with
  | connect f => exact Or.inl (entry_connect hu f)
  | leavesOpen client readyState =>
    rw [entry_leavesOpen]
    by_cases h : u = client ∧ readyState ≠ .OPEN
    · simp only [if_pos h]
      exact Or.inr (Or.inr ⟨readyState, h.2, rfl⟩)
    · refine Or.inl ?_
      simp only [if_neg h, List.map_id']
  | gone client =>
    rw [entry_gone]
    by_cases h : u = client
    · exact Or.inr (Or.inl (if_pos h))
    · exact Or.inl (if_neg h)
  | destroy => exact Or.inr (Or.inl rfl)

/-- Its filter stays. -/
theorem registered_client (h : Registered u jobFilter s) (x : ClientStep) :
    Registered u jobFilter (s.client x) := by
  have hnext : s.next ≤ (s.client x).next := by
    cases x with
    | connect f => exact Nat.le_succ _
    | _ => exact le_rfl
  refine ⟨lt_of_lt_of_le h.older hnext, ?_⟩
  rcases entry_client h.older x with hsame | hnil | ⟨readyState, -, hmap⟩
  · rw [hsame]
    exact h.entry
  · exact Or.inl hnil
  · rw [hmap]
    rcases h.entry with hnil | ⟨st, hone⟩
    · exact Or.inl (by rw [hnil]; rfl)
    · exact Or.inr ⟨readyState, by rw [hone]; rfl⟩

/-- A client that is open has been open before. -/
theorem isOpen_of_client (hu : u < s.next) {x : ClientStep} (h : IsOpen u (s.client x)) :
    IsOpen u s := by
  obtain ⟨c, hc, hopen⟩ := isOpen_iff.mp h
  rcases entry_client hu x with hsame | hnil | ⟨readyState, hclosed, hmap⟩
  · rw [hsame] at hc
    exact isOpen_iff.mpr ⟨c, hc, hopen⟩
  · rw [hnil] at hc
    exact absurd hc List.not_mem_nil
  · rw [hmap] at hc
    obtain ⟨c', -, rfl⟩ := List.mem_map.mp hc
    exact absurd hopen hclosed

/-- What reaches `u` of an event sent to some clients. -/
theorem sentTo_map (u : ℕ) (clients : List WsClient) (event : ExecutionEvent) :
    sentTo u (clients.map fun c => .sent c.id event) =
      (clients.filter (·.id = u)).map fun _ => event := by
  induction clients with
  | nil => rfl
  | cons c clients ih =>
    unfold sentTo at ih ⊢
    by_cases hc : c.id = u
    · rw [List.filter_cons_of_pos (by simpa using hc), List.map_cons, List.map_cons, ← ih]
      exact List.filterMap_cons_some (if_pos hc)
    · rw [List.filter_cons_of_neg (by simpa using hc), List.map_cons, ← ih]
      exact List.filterMap_cons_none (if_neg hc)

/-- What reaches `u` of an event that is broadcast. -/
theorem sentTo_broadcast_eq (s : State) (u : ℕ) (event : ExecutionEvent) :
    sentTo u (broadcast s.clients event) =
      ((s.entry u).filter (·.gets event.jobId)).map fun _ => event := by
  unfold broadcast State.entry
  rw [sentTo_map, List.filter_filter, List.filter_filter]
  congr 1
  exact List.filter_congr fun c _ => Bool.and_comm _ _

/-- **An event is sent once to an open client that wants it**, and not at all to one that does
not. -/
theorem sentTo_broadcast (h : s.entry u = [⟨u, .OPEN, jobFilter⟩]) (event : ExecutionEvent) :
    sentTo u (broadcast s.clients event) = if wants jobFilter event.jobId then [event] else [] := by
  rw [sentTo_broadcast_eq, h]
  cases hw : wants jobFilter event.jobId <;> simp [WsClient.gets, hw]

/-- **What is sent to a client while it is connected and open** is what is emitted meanwhile and
wanted by it, in that order. -/
theorem sentTo_eq {es after : List Event} (hs : Reaches observer .init es s)
    (h : Reaches observer (s.connect jobFilter) after s') (ho : IsOpen s.next s') :
    sentTo s.next after = (emittedIn after).filter fun event => wants jobFilter event.jobId := by
  have hkeeps : Registered s.next jobFilter s' ∧ (IsOpen s.next s' →
      sentTo s.next after = (emittedIn after).filter fun event => wants jobFilter event.jobId) := by
    refine h.keeps (I := fun after s' => Registered s.next jobFilter s' ∧ (IsOpen s.next s' →
      sentTo s.next after = (emittedIn after).filter fun event => wants jobFilter event.jobId))
      ⟨registered_connect (known hs) jobFilter, fun _ => rfl⟩ ?_
    rintro after s₁ l s₂ new - ⟨hreg, hsent⟩ hstep
    cases l with
    | client x =>
      cases hstep
      rw [List.append_nil]
      exact ⟨registered_client hreg x, fun ho => hsent (isOpen_of_client hreg.older ho)⟩
    | emitExecutionUpdate event =>
      cases hstep
      refine ⟨hreg, fun ho => ?_⟩
      have hentry := hreg.entry_of_isOpen ho
      rw [sentTo_append, emittedIn_append, List.filter_append, hsent ho]
      congr 1
      unfold State.emit
      by_cases hsub : s₁.subscribed
      · rw [if_pos hsub]
        have hemitted : emittedIn (.emitted event :: broadcast s₁.clients event) = [event] :=
          congrArg (event :: ·) (emittedIn_broadcast _ _)
        rw [hemitted, List.filter_cons, List.filter_nil]
        exact sentTo_broadcast hentry event
      · rw [if_neg hsub]
        rfl
  exact hkeeps.2 ho

end

end CodeHive.Api.WsObserver
