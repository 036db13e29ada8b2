import CodeHive.Api.Stores

/-! # Authentication

The hook of `plugins/auth.ts` looks at the URL as it was sent, and lets it pass where it begins with
one of the public prefixes. The router looks at the path of the URL, decoded, segment by segment.
They agree: no URL with a public prefix has a path that a protected route answers. -/

namespace CodeHive.Api.Auth

set_option autoImplicit false

open CodeHive.Api.Stores

/-- What the hook and the router see of a request. -/
structure Request where
  method : String
  url : String
  headers : String → Option String

/-! ### The hook -/

def publicPaths : List String := ["/api/health", "/api/ws"]

/-- `s.startsWith(pre)`. -/
def startsWith (s pre : String) : Bool := pre.toList.isPrefixOf s.toList

/-- A reply that a hook sends in place of the handler's. -/
structure Refusal where
  status : ℕ
  error : String

def unauthorized : Refusal where
  status := 401
  error := "Unauthorized"

/-- The `onRequest` hook: the reply it sends, if it does not let the request pass. -/
def onRequest (apiKey : String) (req : Request) : Option Refusal :=
  if publicPaths.any (startsWith req.url) then none
  else if req.url = "/" then none
  else
    match truthy (req.headers "x-api-key") with
    | none => some unauthorized
    | some key => if key ≠ apiKey then some unauthorized else none

/-- `registerAuth`: the hook it adds, which is none where `API_KEY` is not set. -/
def registerAuth (apiKey : Option String) : Request → Option Refusal :=
  match truthy apiKey with
  | none => fun _ => none
  | some apiKey => onRequest apiKey

/-! ### The routes -/

inductive Handler where
  | root | health | execute | status | executions | stats | workers | worker
  | jobsNext | jobResult | heartbeat | ws | serveStatic
  deriving DecidableEq

/-- The handlers of `execute.ts`, `executions.ts`, `workers.ts` and `worker-api.ts`. -/
def Handler.isProtected : Handler → Bool
  | .root | .health | .ws | .serveStatic => false
  | _ => true

structure Route where
  method : String
  path : String
  handler : Handler

/-- The routes that `start` registers. No two of them answer the same requests but the last, which
is there in production if the dashboard was built, and yields to the others. -/
def routes (production : Bool) : List Route :=
  [⟨"GET", "/", .root⟩,
    ⟨"GET", "/api/health", .health⟩,
    ⟨"POST", "/api/execute", .execute⟩,
    ⟨"GET", "/api/status/:id", .status⟩,
    ⟨"GET", "/api/executions", .executions⟩,
    ⟨"GET", "/api/stats", .stats⟩,
    ⟨"GET", "/api/workers", .workers⟩,
    ⟨"GET", "/api/workers/:id", .worker⟩,
    ⟨"GET", "/api/workers/:id/jobs/next", .jobsNext⟩,
    ⟨"POST", "/api/workers/:id/jobs/:jobId/result", .jobResult⟩,
    ⟨"POST", "/api/workers/:id/heartbeat", .heartbeat⟩,
    ⟨"GET", "/ws", .ws⟩] ++
  if production then [⟨"GET", "/*", .serveStatic⟩] else []

/-- The segments of a path. -/
def segments (path : List Char) : List (List Char) := path.splitOn '/'

/-- Whether the segments of a route accept those of a path: `:name` stands for any one segment, `*`
at the end for all that is left, and any other for itself. -/
def accepts : List (List Char) → List (List Char) → Bool
  | [], [] => true
  | [['*']], _ :: _ => true
  | piece :: pieces, segment :: segments =>
    (piece.head? = some ':' || piece = segment) && accepts pieces segments
  | _, _ => false

/-- A route for `GET` answers `HEAD`, too. -/
def Route.answers (route : Route) (method : String) (path : List Char) : Bool :=
  (route.method = method || (route.method = "GET" && method = "HEAD")) &&
    accepts (segments route.path.toList) (segments path)

/-! ### The router -/

/-- What the router does to a URL before it looks for a route. -/
structure Router where
  /-- The URL without scheme and host. -/
  target : List Char → List Char
  /-- The characters at which the path ends. -/
  startsQuery : Char → Bool
  /-- Percent-decoding. -/
  decode : List Char → Option (List Char)

/-- What is known of it: a URL that begins with a slash has neither scheme nor host, the path ends
at a `?` and at no letter or slash, and decoding leaves alone what is not encoded. -/
structure Router.Lawful (router : Router) : Prop where
  target_slash : ∀ s, router.target ('/' :: s) = '/' :: s
  startsQuery_question : router.startsQuery '?' = true
  not_startsQuery : ∀ c, c = '/' ∨ c.isAlpha → router.startsQuery c = false
  decode_nil : router.decode [] = some []
  decode_cons : ∀ c s, c ≠ '%' → router.decode (c :: s) = (router.decode s).map (c :: ·)

/-- The path of a URL; there is none where it cannot be decoded. -/
def Router.path (router : Router) (url : String) : Option (List Char) :=
  router.decode ((router.target url.toList).takeWhile fun c => !router.startsQuery c)

/-- The handler of the route that answers a request. -/
def Router.find (router : Router) (production : Bool) (req : Request) : Option Handler := do
  let path ← router.path req.url
  let route ← (routes production).find? fun route => route.answers req.method path
  return route.handler

/-- The handler that runs. The hooks of the other plugins may have sent a reply themselves. -/
def handlerOf (router : Router) (production : Bool) (apiKey : Option String)
    (replied : Request → Bool) (req : Request) : Option Handler :=
  if replied req then none
  else
    match registerAuth apiKey req with
    | some _ => none
    | none => router.find production req

/-! ### What the hook lets pass -/

section
variable {apiKey : String} {req : Request}

theorem registerAuth_some (hset : apiKey ≠ "") : registerAuth (some apiKey) = onRequest apiKey := by
  unfold registerAuth truthy
  rw [Option.filter_some, if_pos (by simpa using hset)]

/-- **What the hook lets pass**: a URL with a public prefix, the root, and the right key. -/
theorem onRequest_eq_none_iff (hset : apiKey ≠ "") : onRequest apiKey req = none ↔
    (∃ p ∈ publicPaths, p.toList <+: req.url.toList) ∨ req.url = "/" ∨
      req.headers "x-api-key" = some apiKey := by
  unfold onRequest
  by_cases hpub : publicPaths.any (startsWith req.url) = true
  · rw [if_pos hpub]
    obtain ⟨p, hp, hpre⟩ := List.any_eq_true.mp hpub
    exact ⟨fun _ => Or.inl ⟨p, hp, List.isPrefixOf_iff_prefix.mp hpre⟩, fun _ => rfl⟩
  have hpub' : ¬ ∃ p ∈ publicPaths, p.toList <+: req.url.toList := by
    rintro ⟨p, hp, hpre⟩
    exact hpub (List.any_eq_true.mpr ⟨p, hp, List.isPrefixOf_iff_prefix.mpr hpre⟩)
  rw [if_neg hpub, or_iff_right hpub']
  by_cases hroot : req.url = "/"
  · simp [hroot]
  rw [if_neg hroot, or_iff_right hroot]
  cases hkey : req.headers "x-api-key" with
  | none => simp [truthy]
  | some key =>
    unfold truthy
    by_cases hempty : key = ""
    · subst hempty
      rw [Option.filter_some, if_neg (by simp)]
      simp [hset.symm]
    · rw [Option.filter_some, if_pos (by simpa using hempty)]
      simp

end

/-! ### What the router finds -/

section
variable {router : Router} {req : Request} {production : Bool} {handler : Handler}

/-- The characters of the public prefixes: neither decoding nor the cut at the query sees them. -/
def Plain (s : List Char) : Prop := ∀ c ∈ s, c = '/' ∨ c.isAlpha

instance (s : List Char) : Decidable (Plain s) :=
  List.decidableBAll (fun c => c = '/' ∨ c.isAlpha = true) s

theorem decode_append (hlaw : router.Lawful) {pre : List Char} (hpre : Plain pre) (s : List Char) :
    router.decode (pre ++ s) = (router.decode s).map (pre ++ ·) := by
  induction pre with
  | nil => simp
  | cons c pre ih =>
    have hc : c ≠ '%' := by
      rintro rfl
      exact absurd (hpre '%' List.mem_cons_self) (by decide)
    have ih := ih fun c' hc' => hpre c' (List.mem_cons_of_mem c hc')
    rw [List.cons_append, hlaw.decode_cons c _ hc, ih, Option.map_map]
    rfl

/-- **The path keeps a plain beginning of the URL.** -/
theorem prefix_path (hlaw : router.Lawful) {url : String} {pre path : List Char}
    (hpre : Plain ('/' :: pre)) (hurl : '/' :: pre <+: url.toList)
    (hpath : router.path url = some path) : '/' :: pre <+: path := by
  obtain ⟨rest, hrest⟩ := hurl
  unfold Router.path at hpath
  rw [← hrest, List.cons_append, hlaw.target_slash, ← List.cons_append,
    List.takeWhile_append_of_pos fun c hc => by rw [hlaw.not_startsQuery c (hpre c hc)]; rfl,
    decode_append hlaw hpre] at hpath
  obtain ⟨s, -, rfl⟩ := Option.map_eq_some_iff.mp hpath
  exact List.prefix_append _ s

theorem path_root (hlaw : router.Lawful) : router.path "/" = some ['/'] := by
  have hcut := hlaw.not_startsQuery '/' (Or.inl rfl)
  unfold Router.path
  rw [show "/".toList = ['/'] from rfl, hlaw.target_slash, List.takeWhile_cons,
    if_pos (by simp [hcut]), List.takeWhile_nil, hlaw.decode_cons '/' [] (by decide),
    hlaw.decode_nil]
  rfl

/-- What follows `/api/` in the paths of the protected routes. -/
def protectedWords : List (List Char) :=
  ["execute", "status", "executions", "stats", "workers"].map String.toList

/-- The segments with which the paths of the protected routes begin. -/
def protectedPaths : List (List (List Char)) :=
  protectedWords.map fun word => [[], "api".toList, word]

theorem route_take_mem {route : Route} (hroute : route ∈ routes production)
    (hp : route.handler.isProtected = true) :
    (segments route.path.toList).take 3 ∈ protectedPaths := by
  have hall : ∀ route ∈ routes true, route.handler.isProtected = true →
      (segments route.path.toList).take 3 ∈ protectedPaths := by decide +kernel
  cases production with
  | true => exact hall route hroute hp
  | false => exact hall route (List.mem_append_left _ hroute) hp

/-- Where a route accepts a path, they agree up to its first parameter. -/
theorem accepts_take {pieces parts : List (List Char)} {n : ℕ}
    (h : accepts pieces parts = true)
    (hstatic : ∀ piece ∈ pieces.take n, piece.head? ≠ some ':' ∧ piece ≠ ['*']) :
    parts.take n = pieces.take n := by
  induction n generalizing pieces parts with
  | zero => simp
  | succ n ih =>
    revert h hstatic
    fun_cases accepts pieces parts with
    | case1 => simp
    | case2 part parts =>
      intro _ hstatic
      exact absurd rfl (hstatic ['*'] (by simp)).2
    | case3 piece pieces part parts hstar =>
      intro h hstatic
      rw [Bool.and_eq_true] at h
      have hpiece := (hstatic piece (by simp)).1
      have heq : piece = part := by simpa [hpiece] using h.1
      have hrest := ih h.2 fun p hp => hstatic p (by simp [hp])
      rw [List.take_succ_cons, List.take_succ_cons, hrest, heq]
    | case4 => simp

/-- **A protected handler is found under one of five paths.** -/
theorem find_protected (hp : handler.isProtected = true)
    (h : router.find production req = some handler) :
    ∃ path, router.path req.url = some path ∧ (segments path).take 3 ∈ protectedPaths := by
  unfold Router.find at h
  obtain ⟨path, hpath, h⟩ := Option.bind_eq_some_iff.mp h
  obtain ⟨route, hfound, h⟩ := Option.bind_eq_some_iff.mp h
  obtain rfl : route.handler = handler := Option.some_inj.mp h
  have hmem := route_take_mem (List.mem_of_find?_eq_some hfound) hp
  have hanswers : route.answers req.method path = true := List.find?_some
    (p := fun route : Route => route.answers req.method path) hfound
  unfold Route.answers at hanswers
  rw [Bool.and_eq_true] at hanswers
  have hstatic : ∀ pieces ∈ protectedPaths, ∀ piece ∈ pieces,
      piece.head? ≠ some ':' ∧ piece ≠ ['*'] := by decide
  have htake := accepts_take hanswers.2 (hstatic _ hmem)
  exact ⟨path, hpath, htake ▸ hmem⟩

end

/-! ### No way around the hook -/

section
variable {path word : List Char}

theorem segments_append {pre : List Char} (hpre : '/' ∉ pre) (s : List Char) :
    segments (pre ++ '/' :: s) = pre :: segments s :=
  List.splitOn_append_cons_self_of_not_mem hpre _

/-- What stands before the next slash is the beginning of a segment. -/
theorem prefix_head_segments (hword : '/' ∉ word) (s : List Char) :
    ∃ rest others, segments (word ++ s) = (word ++ rest) :: others := by
  induction word with
  | nil =>
    obtain ⟨rest, others, h⟩ := List.exists_cons_of_ne_nil (List.splitOn_ne_nil '/' s)
    exact ⟨rest, others, h⟩
  | cons c word ih =>
    rw [List.mem_cons, not_or] at hword
    obtain ⟨rest, others, ih⟩ := ih hword.2
    refine ⟨rest, others, ?_⟩
    unfold segments at ih ⊢
    rw [List.cons_append, List.splitOn_cons_eq_if_modifyHead, ih, List.modifyHead_cons,
      if_neg (by simpa using Ne.symm hword.1), List.cons_append]

/-- **The third segment of a path with a public prefix** begins with the word in the prefix. -/
theorem third_segment (hword : '/' ∉ word) (h : "/api/".toList ++ word <+: path) :
    ∃ rest others, segments path = [] :: "api".toList :: (word ++ rest) :: others := by
  obtain ⟨s, rfl⟩ := h
  obtain ⟨rest, others, hseg⟩ := prefix_head_segments hword s
  refine ⟨rest, others, ?_⟩
  have hpath : "/api/".toList ++ word ++ s = [] ++ '/' :: ("api".toList ++ '/' :: (word ++ s)) := by
    simp
  rw [hpath, segments_append (by simp), segments_append (by decide), hseg]

/-- What follows `/api/` in the public prefixes. -/
def publicWords : List (List Char) := ["health", "ws"].map String.toList

/-- **No path with a public prefix is that of a protected route.** -/
theorem take_segments_not_mem (hword : word ∈ publicWords)
    (h : "/api/".toList ++ word <+: path) : (segments path).take 3 ∉ protectedPaths := by
  have hslash : ∀ word ∈ publicWords, '/' ∉ word := by decide
  have hdisjoint : ∀ word ∈ publicWords, ∀ protectedWord ∈ protectedWords,
      ¬ word <+: protectedWord := by decide
  obtain ⟨rest, others, hseg⟩ := third_segment (hslash word hword) h
  rw [hseg]
  intro hmem
  obtain ⟨protectedWord, hprotected, heq⟩ := List.mem_map.mp hmem
  have hthird : protectedWord = word ++ rest := by simpa using heq
  exact hdisjoint word hword protectedWord hprotected ⟨rest, hthird.symm⟩

end

section
variable {router : Router} {req : Request} {production : Bool} {handler : Handler}

/-- **No URL that the hook lets pass without the key leads to a protected handler.** -/
theorem not_found_of_public (hlaw : router.Lawful) (hp : handler.isProtected = true)
    (h : (∃ p ∈ publicPaths, p.toList <+: req.url.toList) ∨ req.url = "/") :
    router.find production req ≠ some handler := by
  intro hfind
  obtain ⟨path, hpath, hmem⟩ := find_protected hp hfind
  rcases h with ⟨p, hpub, hpre⟩ | hroot
  · have hsplit : ∀ p ∈ publicPaths, ∃ word ∈ publicWords,
        p.toList = '/' :: ("api/".toList ++ word) := by decide
    have hplain : ∀ p ∈ publicPaths, Plain p.toList := by decide
    obtain ⟨word, hword, heq⟩ := hsplit p hpub
    have hplain := hplain p hpub
    rw [heq] at hpre hplain
    exact take_segments_not_mem hword (prefix_path hlaw hplain hpre hpath) hmem
  · rw [hroot, path_root hlaw] at hpath
    obtain rfl : ['/'] = path := Option.some_inj.mp hpath
    revert hmem
    decide

/-- **Authentication cannot be bypassed.** Where a key is set, a protected handler runs only for a
request that carries it. -/
theorem protected_has_key (hlaw : router.Lawful) {apiKey : String} (hset : apiKey ≠ "")
    {replied : Request → Bool} (hp : handler.isProtected = true)
    (hrun : handlerOf router production (some apiKey) replied req = some handler) :
    req.headers "x-api-key" = some apiKey := by
  unfold handlerOf at hrun
  rw [registerAuth_some hset] at hrun
  split at hrun
  · cases hrun
  split at hrun
  · cases hrun
  · next hpass =>
    rcases (onRequest_eq_none_iff hset).mp hpass with hpub | hroot | hkey
    · exact absurd hrun (not_found_of_public hlaw hp (Or.inl hpub))
    · exact absurd hrun (not_found_of_public hlaw hp (Or.inr hroot))
    · exact hkey

end

/-- The value of a digit in hexadecimal notation. -/
def hexDigit (c : Char) : Option ℕ := "0123456789abcdef".toList.idxOf? c.toLower

/-- Percent-decoding of characters in ASCII. -/
def percentDecode : List Char → Option (List Char)
  | [] => some []
  | '%' :: high :: low :: s => do
    let high ← hexDigit high
    let low ← hexDigit low
    let s ← percentDecode s
    if high < 8 then some (Char.ofNat (16 * high + low) :: s) else none
  | '%' :: _ => none
  | c :: s => (percentDecode s).map (c :: ·)

theorem percentDecode_cons (c : Char) (s : List Char) (hc : c ≠ '%') :
    percentDecode (c :: s) = (percentDecode s).map (c :: ·) := by
  refine percentDecode.eq_4 c s ?_ ?_
  · rintro _ _ _ rfl
    exact absurd rfl hc
  · rintro rfl
    exact absurd rfl hc

/-- A router for URLs that begin with a slash. -/
def asciiRouter : Router where
  target := id
  startsQuery := fun c => c = '?'
  decode := percentDecode

theorem asciiRouter_lawful : asciiRouter.Lawful where
  target_slash _ := rfl
  startsQuery_question := rfl
  not_startsQuery := by
    rintro c (rfl | hc)
    · rfl
    · refine decide_eq_false ?_
      rintro rfl
      exact absurd hc (by decide)
  decode_nil := rfl
  decode_cons := percentDecode_cons

theorem protected_has_key_stats :
    let req : Request :=
      { method := "GET", url := "/api/st%61ts?limit=5"
        headers := fun name => if name = "x-api-key" then some "secret" else none }
    handlerOf asciiRouter true (some "secret") (fun _ => false) req = some .stats ∧
      req.headers "x-api-key" = some "secret" := by
  intro req
  have hrun : handlerOf asciiRouter true (some "secret") (fun _ => false) req = some .stats := by
    decide +kernel
  exact ⟨hrun, protected_has_key asciiRouter_lawful (by decide) rfl hrun⟩

end CodeHive.Api.Auth
