import CodeHive.Dashboard.Stores

/-! # The connection of the live feed

`initWS` of `lib/stores.ts` with the sockets that it makes, the observer that sends to them, and what
is under way between them. A page and its API, with any other clients of the observer: a message
that is under way when a socket closes is lost, and three seconds later `initWS` is called again. -/

namespace CodeHive.Dashboard.LiveConnection

set_option autoImplicit false

open CodeHive.Concurrency.Interleaving CodeHive.Api.WsObserver
open CodeHive.Dashboard.Stores

/-! ### The page and the observer -/

/-- `ws.readyState` before the `close` event. -/
inductive Ready where
  | CONNECTING
  | OPEN
  | CLOSING

/-- A socket of the page that has not had its `close` event. -/
structure Socket where
  readyState : Ready
  /-- Its number with the observer, once its handshake has got there. -/
  client : Option ℕ
  /-- What is under way to it, oldest first. -/
  wire : List ExecutionEvent

structure Site where
  observer : Api.WsObserver.State
  sockets : List Socket
  /-- The calls of `initWS` that are to come: that of `onMount`, then those of timers. -/
  due : ℕ
  liveFeed : List Entry

/-- The page is about to be mounted, and `init` of the observer has been called. -/
def Site.init : Site := ⟨.init, [], 1, []⟩

inductive Event where
  /-- `emitExecutionUpdate` is called while the observer is subscribed. -/
  | emitted (event : ExecutionEvent)
  /-- The observer has registered a socket of the page as client `u`. -/
  | accepted (u : ℕ)
  /-- `onWSMessage` has been called. -/
  | shown (event : ExecutionEvent)

inductive Label where
  /-- `initWS` is called; `throws` where `connectWS` throws. -/
  | initWS (throws : Bool)
  /-- The handshake of a socket gets to the observer. -/
  | accept (k : ℕ)
  | opened (k : ℕ)
  | message (k : ℕ)
  | error (k : ℕ)
  | close (k : ℕ)
  /-- What else happens to the clients of the observer. -/
  | client (x : ClientStep)
  | emit (event : ExecutionEvent)

/-- `initWS`: a socket, or a timer. -/
def Site.initWS (s : Site) (throws : Bool) : Site :=
  if throws then s
  else { s with sockets := s.sockets ++ [⟨.CONNECTING, none, []⟩], due := s.due - 1 }

/-- What the observer sends goes under way. -/
def Socket.take (es : List Api.WsObserver.Event) (k : Socket) : Socket :=
  { k with wire := k.wire ++ (k.client.map fun u => sentTo u es).getD [] }

/-- **The page and the observer.** -/
def site : Automaton Site Label Event where
  step s
    | .initWS throws => if s.due = 0 then none else some (s.initWS throws, [])
    | .accept k => do
      match ← s.sockets[k]? with
      | ⟨readyState, none, wire⟩ =>
        return ({ s with
          observer := s.observer.connect none
          sockets := s.sockets.set k ⟨readyState, some s.observer.next, wire⟩ },
          [.accepted s.observer.next])
      | _ => none
    | .opened k => do
      match ← s.sockets[k]? with
      | ⟨.CONNECTING, some u, wire⟩ =>
        return ({ s with sockets := s.sockets.set k ⟨.OPEN, some u, wire⟩ }, [])
      | _ => none
    | .message k => do
      match ← s.sockets[k]? with
      | ⟨.OPEN, client, event :: wire⟩ =>
        return ({ s with
          sockets := s.sockets.set k ⟨.OPEN, client, wire⟩
          liveFeed := onWSMessage s.liveFeed (some (executionUpdate event)) }, [.shown event])
      | _ => none
    | .error k => do
      -- `onerror` calls `close`
      match ← s.sockets[k]? with
      | ⟨.CLOSING, _, _⟩ => none
      | ⟨_, client, wire⟩ =>
        return ({ s with sockets := s.sockets.set k ⟨.CLOSING, client, wire⟩ }, [])
    | .close k => do
      -- `onclose` sets a timer
      let _ ← s.sockets[k]?
      return ({ s with sockets := s.sockets.eraseIdx k, due := s.due + 1 }, [])
    | .client x => some ({ s with observer := s.observer.client x }, [])
    | .emit event =>
      some ({ s with sockets := s.sockets.map (Socket.take (s.observer.emit event)) },
        (emittedIn (s.observer.emit event)).map .emitted)

/-! ### What a step can do -/

/-- **The moves of the site.** -/
inductive Move (s : Site) : Site → List Event → Prop where
  | later (h : s.due ≠ 0) : Move s s []
  | connect (h : s.due ≠ 0) : Move s (s.initWS false) []
  | accept {k : ℕ} {readyState : Ready} {wire : List ExecutionEvent}
      (hk : s.sockets[k]? = some ⟨readyState, none, wire⟩) :
      Move s { s with
        observer := s.observer.connect none
        sockets := s.sockets.set k ⟨readyState, some s.observer.next, wire⟩ }
        [.accepted s.observer.next]
  /-- A socket goes on, which has been accepted where it is open. -/
  | turn {k : ℕ} {sock : Socket} {readyState : Ready} (hk : s.sockets[k]? = some sock)
      (hopen : readyState = .OPEN → sock.client ≠ none) :
      Move s { s with sockets := s.sockets.set k { sock with readyState } } []
  | message {k : ℕ} {client : Option ℕ} {event : ExecutionEvent} {wire : List ExecutionEvent}
      (hk : s.sockets[k]? = some ⟨.OPEN, client, event :: wire⟩) :
      Move s { s with
        sockets := s.sockets.set k ⟨.OPEN, client, wire⟩
        liveFeed := onWSMessage s.liveFeed (some (executionUpdate event)) } [.shown event]
  | close {k : ℕ} {sock : Socket} (hk : s.sockets[k]? = some sock) :
      Move s { s with sockets := s.sockets.eraseIdx k, due := s.due + 1 } []
  | client (x : ClientStep) : Move s { s with observer := s.observer.client x } []
  | emit (event : ExecutionEvent) :
      Move s { s with sockets := s.sockets.map (Socket.take (s.observer.emit event)) }
        ((emittedIn (s.observer.emit event)).map .emitted)

section
variable {s s' : Site} {es new : List Event} {l : Label}

theorem move_of_step (h : site.step s l = some (s', new)) : Move s s' new := by
  cases l with
  | initWS throws =>
    unfold site at h
    simp only at h
    split at h
    · cases h
    · next hdue =>
      cases h
      cases throws with
      | true => exact .later hdue
      | false => exact .connect hdue
  | accept k =>
    obtain ⟨sock, hk, h⟩ := Option.bind_eq_some_iff.mp h
    split at h
    · cases h; exact .accept hk
    · cases h
  | opened k =>
    obtain ⟨sock, hk, h⟩ := Option.bind_eq_some_iff.mp h
    split at h
    · cases h; exact .turn hk (by simp)
    · cases h
  | message k =>
    obtain ⟨sock, hk, h⟩ := Option.bind_eq_some_iff.mp h
    split at h
    · cases h; exact .message hk
    · cases h
  | error k =>
    obtain ⟨sock, hk, h⟩ := Option.bind_eq_some_iff.mp h
    split at h
    · cases h
    · cases h; exact .turn hk (by simp)
  | close k =>
    obtain ⟨sock, hk, h⟩ := Option.bind_eq_some_iff.mp h
    cases h
    exact .close hk
  | client x => cases h; exact .client x
  | emit event => cases h; exact .emit event

/-! ### What has been shown -/

def emitted (es : List Event) : List ExecutionEvent :=
  es.filterMap fun
    | .emitted event => some event
    | _ => none

def shown (es : List Event) : List ExecutionEvent :=
  es.filterMap fun
    | .shown event => some event
    | _ => none

theorem emitted_append (es new : List Event) : emitted (es ++ new) = emitted es ++ emitted new :=
  List.filterMap_append

theorem shown_append (es new : List Event) : shown (es ++ new) = shown es ++ shown new :=
  List.filterMap_append

theorem emitted_map (events : List ExecutionEvent) : emitted (events.map .emitted) = events := by
  rw [emitted, List.filterMap_map]
  exact List.filterMap_some

theorem shown_map (events : List ExecutionEvent) : shown (events.map .emitted) = [] := by
  rw [shown, List.filterMap_map]
  exact List.filterMap_none _

/-- All that has been emitted since client `u` was accepted has been shown or is under way. -/
def Caught (es : List Event) (u : ℕ) (wire : List ExecutionEvent) : Prop :=
  ∃ es₁ es₂, es = es₁ ++ .accepted u :: es₂ ∧ emitted es₂ = shown es₂ ++ wire

/-- **What the page shows.** -/
structure Fed (es : List Event) (s : Site) : Prop where
  /-- There is one socket, or one call of `initWS` to come. -/
  one : s.sockets.length + s.due = 1
  known : Known s.observer
  feed : s.liveFeed = Stores.liveFeed ((shown es).map fun event => some (executionUpdate event))
  /-- What is shown or under way was emitted, in this order. -/
  inOrder : (shown es ++ s.sockets.flatMap Socket.wire).Sublist (emitted es)
  unaccepted : ∀ sock ∈ s.sockets, sock.client = none →
    sock.wire = [] ∧ sock.readyState ≠ .OPEN
  accepted : ∀ sock ∈ s.sockets, ∀ u, sock.client = some u →
    Registered u none s.observer ∧ (IsOpen u s.observer → Caught es u sock.wire)

theorem Fed.init : Fed [] .init where
  one := rfl
  known _ hc := absurd hc List.not_mem_nil
  feed := rfl
  inOrder := List.Sublist.refl _
  unaccepted _ hk := absurd hk List.not_mem_nil
  accepted _ hk := absurd hk List.not_mem_nil

/-- A socket that there is, is the only one. -/
theorem Fed.only (h : Fed es s) {k : ℕ} {sock : Socket} (hk : s.sockets[k]? = some sock) :
    s.sockets = [sock] ∧ k = 0 ∧ s.due = 0 := by
  have hone := h.one
  obtain ⟨hlt, hget⟩ := List.getElem?_eq_some_iff.mp hk
  have hlen : s.sockets.length = 1 := by omega
  obtain ⟨sock', hsock⟩ := List.length_eq_one_iff.mp hlen
  have hzero : k = 0 := by omega
  subst hzero
  rw [hsock] at hk
  cases hk
  exact ⟨hsock, rfl, by omega⟩

theorem sentTo_emit_open {o : Api.WsObserver.State} {u : ℕ} (h : Registered u none o)
    (ho : IsOpen u o) (event : ExecutionEvent) : sentTo u (o.emit event) = emittedIn (o.emit event) := by
  unfold Api.WsObserver.State.emit
  split
  · have hemitted : emittedIn (.emitted event :: broadcast o.clients event) = [event] :=
      congrArg (event :: ·) (emittedIn_broadcast _ _)
    rw [hemitted]
    exact sentTo_broadcast (h.entry_of_isOpen ho) event
  · rfl

/-- A client is sent nothing but what is emitted, and that once. -/
theorem sentTo_emit_sublist {o : Api.WsObserver.State} {u : ℕ} (h : Registered u none o)
    (event : ExecutionEvent) : (sentTo u (o.emit event)).Sublist (emittedIn (o.emit event)) := by
  by_cases ho : IsOpen u o
  · rw [sentTo_emit_open h ho]
  · have hnil : sentTo u (o.emit event) = [] := by
      unfold Api.WsObserver.State.emit
      split
      · have hsent : sentTo u (.emitted event :: broadcast o.clients event) =
            ((o.entry u).filter (·.gets event.jobId)).map fun _ => event :=
          sentTo_broadcast_eq o u event
        rw [hsent, List.map_eq_nil_iff, List.filter_eq_nil_iff]
        intro c hc hgets
        exact ho (isOpen_iff.mpr ⟨c, hc, of_decide_eq_true (Bool.and_eq_true_iff.mp hgets).2⟩)
      · rfl
    rw [hnil]
    exact List.nil_sublist _

/-- The site with one socket. -/
theorem Fed.single (sock : Socket) (hsock : s.sockets = [sock]) (hdue : s.due = 0)
    (hknown : Known s.observer)
    (hfeed : s.liveFeed = Stores.liveFeed ((shown es).map fun event => some (executionUpdate event)))
    (hord : (shown es ++ sock.wire).Sublist (emitted es))
    (hun : sock.client = none → sock.wire = [] ∧ sock.readyState ≠ .OPEN)
    (hacc : ∀ u, sock.client = some u →
      Registered u none s.observer ∧ (IsOpen u s.observer → Caught es u sock.wire)) : Fed es s where
  one := by rw [hsock, hdue]; rfl
  known := hknown
  feed := hfeed
  inOrder := by rwa [hsock, List.flatMap_singleton]
  unaccepted sock' h := by
    rw [hsock, List.mem_singleton] at h
    exact h ▸ hun
  accepted sock' h := by
    rw [hsock, List.mem_singleton] at h
    exact h ▸ hacc

theorem Caught.append {u : ℕ} {wire wire' : List ExecutionEvent} (h : Caught es u wire)
    (hnew : wire ++ emitted new = shown new ++ wire') : Caught (es ++ new) u wire' := by
  obtain ⟨es₁, es₂, rfl, heq⟩ := h
  refine ⟨es₁, es₂ ++ new, by simp, ?_⟩
  rw [emitted_append, shown_append, heq, List.append_assoc, hnew, List.append_assoc]

theorem Fed.message (h : Fed es s) {k : ℕ} {client : Option ℕ} {event : ExecutionEvent}
    {wire : List ExecutionEvent} (hk : s.sockets[k]? = some ⟨.OPEN, client, event :: wire⟩) :
    Fed (es ++ [.shown event]) { s with
      sockets := s.sockets.set k ⟨.OPEN, client, wire⟩
      liveFeed := onWSMessage s.liveFeed (some (executionUpdate event)) } := by
  obtain ⟨hsock, rfl, hdue⟩ := h.only hk
  have hmem : (⟨.OPEN, client, event :: wire⟩ : Socket) ∈ s.sockets := List.mem_of_getElem? hk
  have hord := h.inOrder
  rw [hsock, List.flatMap_singleton] at hord
  have hfeed : Stores.liveFeed ((shown (es ++ [.shown event])).map
      fun event => some (executionUpdate event)) =
        onWSMessage s.liveFeed (some (executionUpdate event)) := by
    rw [h.feed, shown_append, List.map_append, Stores.liveFeed, Stores.liveFeed, List.foldl_append]
    rfl
  refine .single ⟨.OPEN, client, wire⟩ (by rw [hsock]; rfl) hdue h.known hfeed.symm ?_
    (fun hnone => ?_) fun u hu => ⟨(h.accepted _ hmem u hu).1, fun ho => ?_⟩
  · rw [shown_append, emitted_append, List.append_assoc]
    exact hord.trans (List.sublist_append_left _ _)
  · exact absurd rfl (h.unaccepted _ hmem hnone).2
  · exact ((h.accepted _ hmem u hu).2 ho).append (List.append_nil _)

theorem Fed.emit (h : Fed es s) (event : ExecutionEvent) :
    Fed (es ++ (emittedIn (s.observer.emit event)).map .emitted)
      { s with sockets := s.sockets.map (Socket.take (s.observer.emit event)) } := by
  have hone := h.one
  have hord := h.inOrder
  have hshown := shown_map (emittedIn (s.observer.emit event))
  have hemitted := emitted_map (emittedIn (s.observer.emit event))
  have hfeed : s.liveFeed = Stores.liveFeed ((shown (es ++
      (emittedIn (s.observer.emit event)).map .emitted)).map
        fun event => some (executionUpdate event)) := by
    rw [shown_append, hshown, List.append_nil]
    exact h.feed
  cases hs : s.sockets with
  | nil =>
    rw [hs, List.flatMap_nil, List.append_nil] at hord
    refine ⟨?_, h.known, hfeed, ?_, ?_, ?_⟩
    · rw [hs] at hone
      exact hone
    · rw [shown_append, hshown, emitted_append]
      simpa using hord.trans (List.sublist_append_left _ _)
    · exact fun sock hk => absurd hk List.not_mem_nil
    · exact fun sock hk => absurd hk List.not_mem_nil
  | cons sock rest =>
    have hk : s.sockets[0]? = some sock := by rw [hs]; rfl
    obtain ⟨hsock, -, hdue⟩ := h.only hk
    have hmem := List.mem_of_getElem? hk
    rw [hsock, List.flatMap_singleton] at hord
    obtain ⟨readyState, client, wire⟩ := sock
    rw [List.cons.inj (hs.symm.trans hsock) |>.2]
    cases client with
    | none =>
      obtain ⟨hwire, hopen⟩ := h.unaccepted _ hmem rfl
      simp only at hwire hopen
      subst hwire
      refine .single ⟨readyState, none, []⟩ rfl hdue h.known hfeed ?_
        (fun _ => ⟨rfl, hopen⟩) fun u hu => by cases hu
      rw [shown_append, hshown, emitted_append, List.append_nil]
      exact hord.trans (List.sublist_append_left _ _)
    | some u =>
      obtain ⟨hreg, hcaught⟩ := h.accepted _ hmem u rfl
      refine .single ⟨readyState, some u, wire ++ sentTo u (s.observer.emit event)⟩ rfl hdue
        h.known hfeed ?_ (fun hnone => by cases hnone) fun u' hu => ?_
      · rw [shown_append, hshown, emitted_append, hemitted, List.append_nil, ← List.append_assoc]
        exact hord.append (sentTo_emit_sublist hreg event)
      · cases hu
        refine ⟨hreg, fun ho => (hcaught ho).append ?_⟩
        rw [hemitted, hshown, sentTo_emit_open hreg ho]
        rfl

theorem Fed.move (h : Fed es s) (hm : Move s s' new) : Fed (es ++ new) s' := by
  have hone := h.one
  have hord := h.inOrder
  cases hm with
  | later hdue => rwa [List.append_nil]
  | connect hdue =>
    have hnil : s.sockets = [] := List.eq_nil_of_length_eq_zero (by omega)
    rw [hnil, List.length_nil] at hone
    rw [hnil] at hord
    rw [List.append_nil]
    refine .single ⟨.CONNECTING, none, []⟩ ?_ ?_ h.known h.feed hord
      (fun _ => ⟨rfl, by simp⟩) fun u hu => by cases hu
    · show s.sockets ++ _ = _
      rw [hnil]
      rfl
    · show s.due - 1 = 0
      omega
  | @accept k readyState wire hk =>
    obtain ⟨hsock, rfl, hdue⟩ := h.only hk
    obtain ⟨hwire, hopen⟩ := h.unaccepted _ (List.mem_of_getElem? hk) rfl
    simp only at hwire
    subst hwire
    rw [hsock, List.flatMap_singleton] at hord
    have hshown : shown (es ++ [.accepted s.observer.next]) = shown es := by
      rw [shown_append]
      exact List.append_nil _
    refine .single ⟨readyState, some s.observer.next, []⟩ (by rw [hsock]; rfl) hdue
      (known_client h.known (.connect none)) (by rw [hshown]; exact h.feed) ?_
      (fun hnone => by cases hnone) fun u hu => ?_
    · rw [hshown, emitted_append]
      exact hord.trans (List.sublist_append_left _ _)
    · cases hu
      exact ⟨registered_connect h.known none, fun _ => ⟨es, [], rfl, rfl⟩⟩
  | @turn k sock readyState hk hopen =>
    obtain ⟨hsock, rfl, hdue⟩ := h.only hk
    have hmem := List.mem_of_getElem? hk
    rw [hsock, List.flatMap_singleton] at hord
    rw [List.append_nil]
    refine .single { sock with readyState } (by rw [hsock]; rfl) hdue h.known h.feed hord
      (fun hnone => ⟨(h.unaccepted sock hmem hnone).1, fun ho => hopen ho hnone⟩)
      (h.accepted sock hmem)
  | message hk => exact h.message hk
  | @close k sock hk =>
    obtain ⟨hsock, rfl, hdue⟩ := h.only hk
    rw [List.append_nil]
    refine ⟨?_, h.known, h.feed, ?_, ?_, ?_⟩
    · rw [hsock, hdue]
      rfl
    · rw [hsock]
      show (shown es ++ []).Sublist _
      rw [List.append_nil]
      exact (List.sublist_append_left _ _).trans hord
    · rw [hsock]
      exact fun sock hk => absurd hk List.not_mem_nil
    · rw [hsock]
      exact fun sock hk => absurd hk List.not_mem_nil
  | client x =>
    rw [List.append_nil]
    refine ⟨hone, known_client h.known x, h.feed, hord, h.unaccepted, fun sock hk u hu => ?_⟩
    obtain ⟨hreg, hcaught⟩ := h.accepted sock hk u hu
    exact ⟨registered_client hreg x, fun ho => hcaught (isOpen_of_client hreg.older ho)⟩
  | emit event => exact h.emit event

theorem fed (h : Reaches site .init es s) : Fed es s :=
  h.keeps .init fun _ _ _ _ _ _ hf hs => hf.move (move_of_step hs)

theorem received_updates (events : List ExecutionEvent) :
    received (events.map fun event => some (executionUpdate event)) =
      events.reverse.map fun event => some (eventJson event) := by
  unfold received
  rw [List.filterMap_map, List.map_reverse]
  exact congrArg List.reverse (congrFun List.filterMap_eq_map events)

end

/-- **The live feed across reconnections**: at all times the page has one socket or one call of
`initWS` to come; the feed is the newest fifty of the events that were shown, and these were emitted
in this order, none shown twice. While the socket is open for the observer, all that was emitted
since it was accepted is shown or on its way. -/
theorem feed_across_reconnections {es : List Event} {s : Site} (h : Reaches site .init es s) :
    s.sockets.length + s.due = 1 ∧
      s.liveFeed = ((shown es).reverse.map fun event => some (eventJson event)).take 50 ∧
      (shown es).Sublist (emitted es) ∧
      ∀ sock ∈ s.sockets, ∀ u, sock.client = some u → IsOpen u s.observer →
        Caught es u sock.wire := by
  have hf := fed h
  refine ⟨hf.one, ?_, (List.sublist_append_left _ _).trans hf.inOrder,
    fun sock hk u hu => (hf.accepted sock hk u hu).2⟩
  rw [hf.feed, liveFeed_eq, received_updates]

/-- An event of job `jobId`. -/
def update (jobId : String) : ExecutionEvent :=
  { jobId, status := "running", timestamp := "2024-01-01T00:00:00.000Z" }

/-- The connection breaks between two events; a third is emitted before the page is back. -/
def reconnected : List Label :=
  [.initWS false, .accept 0, .opened 0, .emit (update "a"), .message 0, .error 0, .close 0,
    .emit (update "b"), .initWS true, .initWS false, .accept 0, .opened 0, .emit (update "c"),
    .message 0]

theorem feed_across_reconnections_lost : ∃ es s, site.run .init reconnected = some (s, es) ∧
    emitted es = [update "a", update "b", update "c"] ∧ shown es = [update "a", update "c"] ∧
    s.sockets.length + s.due = 1 ∧
    s.liveFeed = ((shown es).reverse.map fun event => some (eventJson event)).take 50 ∧
    (shown es).Sublist (emitted es) ∧
    ∀ sock ∈ s.sockets, ∀ u, sock.client = some u → IsOpen u s.observer →
      Caught es u sock.wire := by
  have hrun : ∃ es s, site.run .init reconnected = some (s, es) ∧
      emitted es = [update "a", update "b", update "c"] ∧ shown es = [update "a", update "c"] :=
    ⟨_, _, rfl, rfl, rfl⟩
  obtain ⟨es, s, hs, hemitted, hshown⟩ := hrun
  exact ⟨es, s, hs, hemitted, hshown, feed_across_reconnections (reaches_of_run hs)⟩

end CodeHive.Dashboard.LiveConnection
