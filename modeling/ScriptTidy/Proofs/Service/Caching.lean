import Mathlib.Data.Set.Function
import ScriptTidy.Proofs.Service.Cache
import ScriptTidy.Proofs.Service.Order
import ScriptTidy.Proofs.SourceMap.Words
import ScriptTidy.Service.Basic

/-!
# The cache does not show

A service answers each request as if it were the first one. `Kept` is what holds of a service
after any requests: it is the one that was created, and what has been put into its cache are
answers to orders of those requests. As the key of an answer tells the order, an answer from the
cache is the one that the order would be filled with. A request gets no response if the map of its
answer is never written, and then it gets none from a new service either.

* `Kept.serve` : a request keeps this up.
* `Kept.sameAnswer` : what comes from the cache is what filling the order would give.
* `respond_eq_none_iff` : which requests get no response.
* `serve_after` : after any requests, a service answers as it does in the beginning, and failed
  requests leave it as it is.
-/

namespace ScriptTidy.Service

open Http (Act Conduct Request Response)

/-! ## Answers apart from what is counted -/

/-- Whether two conducts answer in the same way. -/
structure SameAnswer (c d : Conduct) : Prop where
  acts : c.acts = d.acts
  crash : c.crash = d.crash
  endless : c.endless = d.endless

theorem crash_compress (r : Request) (c : Conduct) : (c.compress r).crash = c.crash := by
  unfold Conduct.compress
  repeat' split
  all_goals rfl

theorem endless_compress (r : Request) (c : Conduct) : (c.compress r).endless = c.endless := by
  unfold Conduct.compress
  repeat' split
  all_goals rfl

theorem endless_recordCode (breakdown : Bytes) (c : Conduct) :
    (c.recordCode breakdown).endless = c.endless := by
  unfold Conduct.recordCode
  split <;> rfl

/-- What a client receives for a conduct, whatever happens around the handler. -/
theorem response?_wrap (r : Request) (c : Conduct) : (c.wrap r).response? =
    if c.endless then none
    else some (.ofActs (if c.crash.isSome then c.acts ++ [.status 500] else c.acts)) := by
  unfold Conduct.wrap Conduct.response?
  cases hendless : c.endless with
  | true => simp only [if_true, hendless]
  | false =>
    cases hcrash : c.crash with
    | some reason => rfl
    | none =>
      simp only [Bool.false_eq_true, if_false, Option.isSome_none, Conduct.logRequest,
        Conduct.countCode]
      repeat' split
      all_goals simp_all

namespace SameAnswer

variable {c d e : Conduct}

theorem symm (h : SameAnswer c d) : SameAnswer d c := ⟨h.acts.symm, h.crash.symm, h.endless.symm⟩

theorem trans (h : SameAnswer c d) (h' : SameAnswer d e) : SameAnswer c e :=
  ⟨h.acts.trans h'.acts, h.crash.trans h'.crash, h.endless.trans h'.endless⟩

theorem compress (h : SameAnswer c d) (r : Request) :
    SameAnswer (c.compress r) (d.compress r) := by
  refine ⟨?_, ?_, ?_⟩
  · unfold Conduct.compress
    rw [h.acts, h.endless]
    dsimp only
    repeat' split
    all_goals rfl
  · rw [crash_compress, crash_compress, h.crash]
  · rw [endless_compress, endless_compress, h.endless]

theorem response?_wrap (h : SameAnswer c d) (r : Request) :
    (c.wrap r).response? = (d.wrap r).response? := by
  rw [Service.response?_wrap, Service.response?_wrap, h.acts, h.crash, h.endless]

end SameAnswer

/-! ## Requests with orders -/

/-- Whether a request is for the handler of orders. -/
def ForOrders (r : Request) : Prop :=
  Path.canonical r.path = r.path ∧ Route.find? r.path = some .order ∧
    utf8 Route.order.method = r.method

instance (r : Request) : Decidable (ForOrders r) := inferInstanceAs (Decidable (_ ∧ _))

/-- The order that a request asks the cache for, and whether with differences. Other requests do
not come as far as that. -/
def orderOf? (maxBytes : Int) (r : Request) : Option (Order × Bool) :=
  if ForOrders r ∧ ¬ (0 < maxBytes ∧ maxBytes < r.body.length) then
    match Order.read r.body with
    | .ok o => some (o, wantsDiff r)
    | .error _ => none
  else none

/-- The canonical forms of the orders of requests. -/
def encodings (maxBytes : Int) (requests : List Request) : List Bytes :=
  requests.filterMap fun r => (orderOf? maxBytes r).map fun (o, check) => o.encode check

theorem orderOf?_eq_some {maxBytes : Int} {r : Request} {o : Order} {check : Bool}
    (h : orderOf? maxBytes r = some (o, check)) :
    ForOrders r ∧ ¬ (0 < maxBytes ∧ maxBytes < r.body.length) ∧ Order.read r.body = .ok o ∧
      wantsDiff r = check := by
  unfold orderOf? at h
  split at h
  next hr =>
    split at h
    next o' ho =>
      cases h
      exact ⟨hr.1, hr.2, ho, rfl⟩
    next => cases h
  · cases h

section Dispatch

variable {κ : Type} {kind : CacheKind κ Answer} {s t : StateOf kind} {r : Request} {o : Order}
  {check : Bool}

/-- A request that leaves the service as it is, is answered in the same way by another service, and
gets a response. -/
def PaysNoHeed (s t : StateOf kind) (r : Request) : Prop :=
  (dispatch s r).2 = s ∧ (dispatch t r).1 = (dispatch s r).1 ∧ (dispatch s r).1.endless = false

theorem dispatch_of_forOrders (h : ForOrders r) :
    dispatch s r = (((handleOrder s r).1).recordCode orderCodes, (handleOrder s r).2) := by
  obtain ⟨hpath, hfind, hmethod⟩ := h
  simp only [dispatch, hpath, ne_eq, not_true_eq_false, if_false, hfind, hmethod, if_true,
    handleRoute]

theorem dispatch_of_not_forOrders (h : ¬ ForOrders r) : PaysNoHeed s t r := by
  unfold PaysNoHeed dispatch
  by_cases hpath : Path.canonical r.path = r.path
  · simp only [hpath, ne_eq, not_true_eq_false, if_false]
    cases hfind : Route.find? r.path with
    | none => exact ⟨rfl, rfl, rfl⟩
    | some route =>
      by_cases hmethod : utf8 route.method = r.method
      · simp only [hmethod, if_true]
        cases route
        case order => exact absurd ⟨hpath, hfind, hmethod⟩ h
        all_goals exact ⟨rfl, rfl, rfl⟩
      · simp only [hmethod, if_false, and_self]
  · simp only [hpath, ne_eq, not_false_eq_true, if_true, and_self]

/-- A request with an order is answered as the order is, and changes the service as that does. -/
theorem dispatch_of_order (h : orderOf? s.maxBytes r = some (o, check)) :
    (dispatch s r).2 = (answerOrder s o check).2 ∧
      SameAnswer (dispatch s r).1 (answerOrder s o check).1 := by
  obtain ⟨hroute, hsize, hread, rfl⟩ := orderOf?_eq_some h
  rw [dispatch_of_forOrders hroute]
  simp only [handleOrder, hsize, if_false, hread, true_and]
  refine ⟨?_, ?_, endless_recordCode _ _⟩
  all_goals
    unfold Conduct.recordCode
    split <;> rfl

/-- Other requests leave the service as it is, and its cache plays no part in the answer. -/
theorem dispatch_of_none (hsize : t.maxBytes = s.maxBytes) (h : orderOf? s.maxBytes r = none) :
    PaysNoHeed s t r := by
  by_cases hroute : ForOrders r
  · unfold PaysNoHeed
    rw [dispatch_of_forOrders hroute, dispatch_of_forOrders hroute, endless_recordCode]
    by_cases hlarge : 0 < s.maxBytes ∧ s.maxBytes < r.body.length
    · simp only [handleOrder, hsize, hlarge, and_self, if_true]
    · cases hread : Order.read r.body with
      | error f => simp only [handleOrder, hsize, hlarge, if_false, hread, and_self]
      | ok o =>
        simp only [orderOf?, hroute, hlarge, not_false_eq_true, and_self, if_true, hread] at h
        cases h
  · exact dispatch_of_not_forOrders hroute

/-- An answer from the cache. -/
theorem answerOrder_of_hit {a : Answer} {cache : kind.Cache}
    (h : kind.get s.cache (s.hash (o.encode check)) = (some a, cache)) :
    SameAnswer (answerOrder s o check).1 (conductFor o (.answer a)) ∧
      (answerOrder s o check).2 = { s with cache } := by
  simp only [answerOrder, h, and_true]
  exact ⟨rfl, rfl, rfl⟩

/-- What is not in the cache is filled, and an answer is remembered. -/
theorem answerOrder_of_miss {cache : kind.Cache}
    (h : kind.get s.cache (s.hash (o.encode check)) = (none, cache)) :
    SameAnswer (answerOrder s o check).1 (conductFor o (fill s.tools s.config o check).1) ∧
      (answerOrder s o check).2 = { s with
        cache := remember cache (s.hash (o.encode check)) (fill s.tools s.config o check).1 } := by
  simp only [answerOrder, h, and_true]
  exact ⟨rfl, rfl, rfl⟩

end Dispatch

/-! ## What holds after any requests -/

section Kept

variable {κ : Type} {kind : CacheKind κ Answer} {seen : Set Bytes} {fresh s : StateOf kind}
  {r : Request} {o : Order} {check : Bool}

/-- Whether a value is an answer to an order that has been seen, under the key of that order. -/
def AnswersSeen (seen : Set Bytes) (fresh : StateOf kind) (key : κ) (a : Answer) : Prop :=
  ∃ (o : Order) (check : Bool), o.Proper ∧ o.encode check ∈ seen ∧
    key = fresh.hash (o.encode check) ∧ (fill fresh.tools fresh.config o check).1 = .answer a

/-- A service is the one that was created, and nothing but answers to orders that have been seen
has been put into its cache. -/
structure Kept (seen : Set Bytes) (fresh s : StateOf kind) : Prop where
  config : s.config = fresh.config
  tools : s.tools = fresh.tools
  maxBytes : s.maxBytes = fresh.maxBytes
  hash : s.hash = fresh.hash
  cache : ∃ past, s.cache = kind.after fresh.cache past ∧
    ∀ key a, .add key a ∈ past → AnswersSeen seen fresh key a

/-- In the beginning nothing has been put into the cache. -/
theorem kept_refl : Kept seen fresh fresh := ⟨rfl, rfl, rfl, rfl, [], rfl, nofun⟩

/-- Taking an order keeps this up: an answer comes into the cache only under the key of the order
that it has been made for. -/
theorem Kept.answerOrder (h : Kept seen fresh s) (ho : o.Proper) (hseen : o.encode check ∈ seen) :
    Kept seen fresh (answerOrder s o check).2 := by
  obtain ⟨past, hcache, hadded⟩ := h.cache
  have hlook : (kind.get s.cache (s.hash (o.encode check))).2 =
      kind.after fresh.cache (.get (s.hash (o.encode check)) :: past) := by
    rw [hcache]
    rfl
  -- looking up adds nothing to the cache
  have hlooked : ∀ key a, .add key a ∈ .get (s.hash (o.encode check)) :: past →
      AnswersSeen seen fresh key a := by
    intro key a hmem
    rcases List.mem_cons.mp hmem with heq | hmem
    · cases heq
    · exact hadded key a hmem
  cases hget : kind.get s.cache (s.hash (o.encode check)) with
  | mk found cache =>
    rw [hget] at hlook
    cases found with
    | some a =>
      rw [(answerOrder_of_hit hget).2]
      exact ⟨h.config, h.tools, h.maxBytes, h.hash, _, hlook, hlooked⟩
    | none =>
      rw [(answerOrder_of_miss hget).2]
      refine ⟨h.config, h.tools, h.maxBytes, h.hash, ?_⟩
      cases hverdict : (fill s.tools s.config o check).1 with
      | failure f => exact ⟨_, hlook, hlooked⟩
      | crash => exact ⟨_, hlook, hlooked⟩
      | answer a =>
        refine ⟨.add (s.hash (o.encode check)) a :: .get (s.hash (o.encode check)) :: past,
          congrArg (fun c => kind.add c (s.hash (o.encode check)) a) hlook, fun key a' hmem => ?_⟩
        rcases List.mem_cons.mp hmem with heq | hmem
        · cases heq
          exact ⟨o, check, ho, hseen, by rw [h.hash],
            by rw [← h.config, ← h.tools, hverdict]⟩
        · exact hlooked key a' hmem

/-- **An order is answered as if it were filled**, whether its answer is in the cache or not. -/
theorem Kept.sameAnswer [DecidableEq κ] (h : Kept seen fresh s) (hkind : kind.Lawful)
    {size : Int} (hnew : kind.new size = .ok fresh.cache) (hhash : Set.InjOn fresh.hash seen)
    (ho : o.Proper) (hseen : o.encode check ∈ seen) :
    SameAnswer (Service.answerOrder s o check).1
      (conductFor o (fill fresh.tools fresh.config o check).1) := by
  obtain ⟨past, hcache, hadded⟩ := h.cache
  cases hget : kind.get s.cache (s.hash (o.encode check)) with
  | mk found cache =>
    cases found with
    | none =>
      rw [← h.config, ← h.tools]
      exact (answerOrder_of_miss hget).1
    | some a =>
      have hfound : (kind.get (kind.after fresh.cache past) (s.hash (o.encode check))).1 =
          some a := by
        rw [← hcache, hget]
      obtain ⟨o', check', ho', hseen', hkey, hanswer⟩ :=
        hadded _ _ (CacheKind.mem_of_lastAdded? (hkind.get_eq_some hnew hfound))
      rw [h.hash] at hkey
      obtain ⟨rfl, rfl⟩ := Order.encode_injective ho ho' (hhash hseen hseen' hkey)
      rw [hanswer]
      exact (answerOrder_of_hit hget).1

/-- A request keeps this up, if its order counts as seen. -/
theorem Kept.serve (h : Kept seen fresh s)
    (hseen : ∀ k ∈ encodings fresh.maxBytes [r], k ∈ seen) :
    Kept seen fresh (Service.serve s r).2 := by
  change Kept seen fresh (dispatch s r).2
  cases horder : orderOf? s.maxBytes r with
  | none => rwa [(dispatch_of_none (t := s) rfl horder).1]
  | some oc =>
    obtain ⟨o, check⟩ := oc
    rw [(dispatch_of_order horder).1]
    refine h.answerOrder (Order.proper_of_read (orderOf?_eq_some horder).2.2.1) (hseen _ ?_)
    rw [h.maxBytes] at horder
    simp [encodings, horder]

/-- What a client gets for a request, if anything. -/
def respond (s : StateOf kind) (r : Request) : Option Response := (serve s r).1.response?

/-- A service after requests. -/
def after (s : StateOf kind) (past : List Request) : StateOf kind :=
  past.foldl (fun s r => (serve s r).2) s

/-- Requests keep this up, if their orders count as seen. -/
theorem Kept.after (h : Kept seen fresh s) {past : List Request}
    (hseen : ∀ k ∈ encodings fresh.maxBytes past, k ∈ seen) :
    Kept seen fresh (Service.after s past) := by
  induction past generalizing s with
  | nil => exact h
  | cons r past ih =>
    have hsplit : encodings fresh.maxBytes (r :: past) =
        encodings fresh.maxBytes [r] ++ encodings fresh.maxBytes past := by
      rw [encodings, ← List.singleton_append, List.filterMap_append]
      rfl
    rw [hsplit] at hseen
    exact ih (h.serve fun k hk => hseen k (List.mem_append_left _ hk)) fun k hk =>
      hseen k (List.mem_append_right _ hk)

theorem Kept.respond_eq [DecidableEq κ] (h : Kept seen fresh s) (hkind : kind.Lawful)
    {size : Int} (hnew : kind.new size = .ok fresh.cache) (hhash : Set.InjOn fresh.hash seen)
    (hseen : ∀ k ∈ encodings fresh.maxBytes [r], k ∈ seen) : respond s r = respond fresh r := by
  suffices hsame : SameAnswer (dispatch s r).1 (dispatch fresh r).1 from
    (hsame.compress r).response?_wrap r
  cases horder : orderOf? fresh.maxBytes r with
  | none =>
    rw [(dispatch_of_none h.maxBytes horder).2.1]
    exact ⟨rfl, rfl, rfl⟩
  | some oc =>
    obtain ⟨o, check⟩ := oc
    have ho := Order.proper_of_read (orderOf?_eq_some horder).2.2.1
    have hmem : o.encode check ∈ seen := hseen _ (by simp [encodings, horder])
    have hnow := h.sameAnswer hkind hnew hhash ho hmem
    have hfirst := kept_refl.sameAnswer hkind hnew hhash ho hmem
    exact ((dispatch_of_order (h.maxBytes ▸ horder)).2.trans hnow).trans
      ((dispatch_of_order horder).2.trans hfirst).symm

end Kept

/-! ## Requests without a response -/

/-- Whether the request is for an answer with a map that is never written. -/
def AsksForEndless (tools : Tools) (config : Config) (maxBytes : Int) (r : Request) : Prop :=
  ∃ o check a, orderOf? maxBytes r = some (o, check) ∧ (fill tools config o check).1 = .answer a ∧
    a.map.NeverWritten

theorem endless_conduct_iff (a : Answer) : a.conduct.endless = true ↔ a.map.NeverWritten := by
  rw [← SourceMap.not_ends_iff, Answer.conduct]
  cases a.map.ends <;> simp

/-- Only an answer is never sent. -/
theorem endless_conductFor_iff (o : Order) (verdict : Verdict) :
    (conductFor o verdict).endless = true ↔ ∃ a, verdict = .answer a ∧ a.map.NeverWritten := by
  cases verdict with
  | answer a =>
    rw [conductFor, endless_conduct_iff]
    exact ⟨fun h => ⟨a, rfl, h⟩, fun ⟨_, heq, h⟩ => Verdict.answer.inj heq ▸ h⟩
  | crash => exact ⟨Bool.noConfusion, fun ⟨_, heq, _⟩ => nomatch heq⟩
  | failure f =>
    refine ⟨fun h => ?_, fun ⟨_, heq, _⟩ => nomatch heq⟩
    unfold conductFor at h
    dsimp only at h
    split at h <;> cases h

section Endless

variable {κ : Type} [DecidableEq κ] {kind : CacheKind κ Answer} {fresh : StateOf kind}

/-- **A request gets no response from a new service** if it asks for one that never ends. -/
theorem respond_eq_none_iff (hkind : kind.Lawful) {size : Int}
    (hnew : kind.new size = .ok fresh.cache) (r : Request) :
    respond fresh r = none ↔ AsksForEndless fresh.tools fresh.config fresh.maxBytes r := by
  have hnone : respond fresh r = none ↔ (dispatch fresh r).1.endless = true := by
    show (((dispatch fresh r).1.compress r).wrap r).response? = none ↔ _
    rw [response?_wrap, endless_compress]
    split
    next h => exact ⟨fun _ => h, fun _ => rfl⟩
    next h => exact ⟨nofun, fun h' => absurd h' h⟩
  rw [hnone]
  unfold AsksForEndless
  cases horder : orderOf? fresh.maxBytes r with
  | none =>
    rw [(dispatch_of_none rfl horder).2.2]
    exact ⟨Bool.noConfusion, nofun⟩
  | some oc =>
    obtain ⟨o, check⟩ := oc
    have ho := Order.proper_of_read (orderOf?_eq_some horder).2.2.1
    -- the hash of a single order tells it from no other
    have hkept : Kept {o.encode check} fresh fresh := kept_refl
    have hsame := hkept.sameAnswer hkind hnew (Set.injOn_singleton _ _) ho rfl
    rw [((dispatch_of_order horder).2.trans hsame).endless, endless_conductFor_iff]
    constructor
    · rintro ⟨a, hverdict, ha⟩
      exact ⟨o, check, a, rfl, hverdict, ha⟩
    · rintro ⟨o', check', a, heq, hverdict, ha⟩
      cases heq
      exact ⟨a, hverdict, ha⟩

end Endless

/-! ## Requests that fail -/

/-- Whether a response tells how an order has been formatted. -/
def Answered (response : Response) : Prop :=
  response.status = 200 ∧ ∃ a : Answer, response.body = a.toJson.render

theorem answered_of_same {c : Conduct} {a : Answer} (h : SameAnswer c a.conduct) (r : Request)
    {response : Response} (hresponse : ((c.compress r).wrap r).response? = some response) :
    Answered response := by
  rw [(h.compress r).response?_wrap, response?_wrap, endless_compress, crash_compress] at hresponse
  unfold Answer.conduct at hresponse
  cases hends : a.map.ends with
  | false => simp [hends] at hresponse
  | true =>
    simp only [hends, if_true, Bool.false_eq_true, if_false, Option.isSome_none,
      Option.some.injEq, Conduct.compress] at hresponse
    subst hresponse
    repeat' split
    all_goals
      refine ⟨?_, a, ?_⟩ <;>
      simp [Response.ofActs, Http.Reply.json, Http.Act.header, Http.Wire.step, Http.Wire.send,
        Http.isSendable, Http.Wire.response]

section Failing

variable {κ : Type} [DecidableEq κ] {kind : CacheKind κ Answer}

theorem answerOrder_cases (hkind : kind.Lawful) (s : StateOf kind) (o : Order) (check : Bool) :
    (∃ a : Answer, SameAnswer (answerOrder s o check).1 a.conduct) ∨
      (answerOrder s o check).2 = s := by
  cases hget : kind.get s.cache (s.hash (o.encode check)) with
  | mk found cache =>
    cases found with
    | some a => exact .inl ⟨a, (answerOrder_of_hit hget).1⟩
    | none =>
      have hsame := hkind.get_eq_none (congrArg Prod.fst hget)
      rw [hget] at hsame
      obtain ⟨hanswer, hstate⟩ := answerOrder_of_miss hget
      cases hverdict : (fill s.tools s.config o check).1 with
      | answer a =>
        rw [hverdict] at hanswer
        exact .inl ⟨a, hanswer⟩
      | failure f =>
        rw [hstate, hverdict]
        exact .inr (congrArg (fun cache => { s with cache }) hsame)
      | crash =>
        rw [hstate, hverdict]
        exact .inr (congrArg (fun cache => { s with cache }) hsame)

/-- **A request that fails leaves the service as it is.** -/
theorem serve_unchanged (hkind : kind.Lawful) {s : StateOf kind} {r : Request}
    {response : Response} (hresponse : respond s r = some response) (h : ¬ Answered response) :
    (serve s r).2 = s := by
  change (dispatch s r).2 = s
  cases horder : orderOf? s.maxBytes r with
  | none => exact (dispatch_of_none (t := s) rfl horder).1
  | some oc =>
    obtain ⟨o, check⟩ := oc
    obtain ⟨hstate, hsame⟩ := dispatch_of_order horder
    rw [hstate]
    rcases answerOrder_cases hkind s o check with ⟨a, ha⟩ | hs
    · exact absurd (answered_of_same (hsame.trans ha) r hresponse) h
    · exact hs

end Failing

/-! ## Services without memory -/

theorem exists_createWith_eq_ok {κ : Type} [DecidableEq κ] (tools : Tools)
    {kind : CacheKind κ Answer} (hkind : kind.Lawful) (hash : Bytes → κ) {config : Config}
    {cacheSize : Int} (maxBytes : Int) (hconfig : config.fault? = none) (hsize : 1 ≤ cacheSize) :
    ∃ fresh : StateOf kind, createWith tools kind hash config cacheSize maxBytes = .ok fresh ∧
      kind.new cacheSize = .ok fresh.cache ∧ fresh.tools = tools ∧ fresh.hash = hash ∧
      fresh.config = config ∧ fresh.maxBytes = maxBytes := by
  obtain ⟨cache, hcache⟩ := hkind.new_eq_ok hsize
  exact ⟨{ config, maxBytes, tools, hash, cache }, by simp only [createWith, hconfig, hcache],
    hcache, rfl, rfl, rfl, rfl⟩

/-- **The cache does not show.** With a valid configuration and room for at least one answer, a
service can be created, whatever the tools it works with. After any requests it answers as it would
answer the first request, provided that no two of the orders so far have canonical forms with the
same hash. A request that is answered in any other way than with the formatted code leaves it as
it is. A request gets no response, from a new service and hence after any requests, exactly if it
asks for a map with a number that is never finished. -/
theorem serve_after {κ : Type} [DecidableEq κ] (tools : Tools) (kind : CacheKind κ Answer)
    (hkind : kind.Lawful) (hash : Bytes → κ) (config : Config) (cacheSize maxBytes : Int)
    (hconfig : config.fault? = none) (hsize : 1 ≤ cacheSize) :
    ∃ fresh : StateOf kind, createWith tools kind hash config cacheSize maxBytes = .ok fresh ∧
      ∀ (past : List Request) (r : Request),
        (Set.InjOn hash {k | k ∈ encodings maxBytes (past ++ [r])} →
          respond (after fresh past) r = respond fresh r) ∧
        (∀ response, respond (after fresh past) r = some response → ¬ Answered response →
          (serve (after fresh past) r).2 = after fresh past) ∧
        (respond fresh r = none ↔ AsksForEndless tools config maxBytes r) := by
  obtain ⟨fresh, hcreate, hnew, rfl, rfl, rfl, rfl⟩ :=
    exists_createWith_eq_ok tools hkind hash maxBytes hconfig hsize
  refine ⟨fresh, hcreate, fun past r => ⟨fun hhash => ?_, fun _ => serve_unchanged hkind,
    respond_eq_none_iff hkind hnew r⟩⟩
  have hsplit : encodings fresh.maxBytes (past ++ [r]) =
      encodings fresh.maxBytes past ++ encodings fresh.maxBytes [r] := List.filterMap_append
  rw [hsplit] at hhash
  have hnow : Kept {k | k ∈ encodings fresh.maxBytes past ++ encodings fresh.maxBytes [r]}
      fresh (after fresh past) :=
    kept_refl.after fun k hk => List.mem_append_left (encodings fresh.maxBytes [r]) hk
  exact hnow.respond_eq hkind hnew hhash fun k hk =>
    List.mem_append_right (encodings fresh.maxBytes past) hk

/-- A request to format a short text, with a query and further settings. -/
def shortRequest (query : String) (settings : String) : Request where
  method := utf8 "POST"
  target := utf8 "/prettify"
  url := { path := utf8 "/prettify", query := some (utf8 query) }
  body := utf8 "\x7b\"source\":\"a\"" ++ utf8 settings ++ utf8 "\x7d"

/-- A hash of texts in 64 bits. -/
def textHash (text : Bytes) : UInt64 :=
  text.foldl (fun h b => (h ^^^ b.toUInt64) * 0x100000001B3) 0xCBF29CE484222325

/-- A start line that takes one bit more than can be written. -/
def farRequest : Request := shortRequest "" ",\"original_start_line\":4611686018427387905"

/-- The answer among what can come of an order. -/
def Verdict.answer? : Verdict → Option Answer
  | answer a => some a
  | _ => none

theorem Verdict.eq_answer {verdict : Verdict} {a : Answer} (h : verdict.answer? = some a) :
    verdict = .answer a := by
  cases verdict with
  | answer b => rw [Option.some.inj h]
  | failure f => cases h
  | crash => cases h

theorem asksForEndless_farRequest : AsksForEndless .standard .standard 0 farRequest := by
  have hfar : (((orderOf? 0 farRequest).bind fun oc =>
      (fill .standard .standard oc.1 oc.2).1.answer?).any fun a => !a.map.ends) = true := by
    decide +kernel
  obtain ⟨a, hanswer, hends⟩ := (Option.any_eq_true _ _).mp hfar
  obtain ⟨⟨o, check⟩, horder, ha⟩ := Option.bind_eq_some_iff.mp hanswer
  exact ⟨o, check, a, horder, Verdict.eq_answer ha,
    SourceMap.not_ends_iff.mp ((Bool.not_eq_true' _).mp hends)⟩

/-- The same text is formatted with the differences and without them, in turns, and between them
comes a request that gets no response. -/
theorem serve_after_turns :
    let past := [shortRequest "" "", farRequest, shortRequest "check=1" ""]
    (Lru.kind UInt64 Answer).Lawful ∧ (Config.standard.fault? = none ∧ (1 : Int) ≤ 2) ∧
    Set.InjOn textHash {k | k ∈ encodings 0 (past ++ [shortRequest "" ""])} ∧
    ∃ fresh : StateOf (Lru.kind UInt64 Answer),
      createWith .standard _ textHash .standard 2 0 = .ok fresh ∧
      respond (after fresh past) (shortRequest "" "") = respond fresh (shortRequest "" "") ∧
      respond fresh farRequest = none := by
  intro past
  have hkeys : ∀ k ∈ encodings 0 (past ++ [shortRequest "" ""]),
      ∀ l ∈ encodings 0 (past ++ [shortRequest "" ""]),
        textHash k = textHash l → k = l := by decide +kernel
  have hhash : Set.InjOn textHash {k | k ∈ encodings 0 (past ++ [shortRequest "" ""])} :=
    fun k hk l hl => hkeys k hk l hl
  obtain ⟨fresh, hfresh, hserve⟩ :=
    serve_after .standard (Lru.kind UInt64 Answer) Lru.lawful textHash .standard 2 0 rfl
      (by decide)
  exact ⟨Lru.lawful, ⟨rfl, by decide⟩, hhash, fresh, hfresh, (hserve _ _).1 hhash,
    (hserve [] farRequest).2.2.mpr asksForEndless_farRequest⟩

end ScriptTidy.Service
