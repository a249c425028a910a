import Mathlib.Data.List.SplitBy
import Mathlib.Logic.Function.Basic
import Qvd.GreedyCaptures
import Qvd.LineText
import Qvd.StableSort

/-!
How the HTTP server finds the processor of a request. Processors are registered with a URL in
which a star stands for a text without slash and a double star for any text; the table is kept
sorted by the length of the URLs, and a cache of answers stands in front of it.
-/
namespace Qvd.RequestRouting

open LineText GreedyCaptures StableSort

/-! ### Registered processors and requests -/

/-- A registered processor. The method is a word, since it is not quoted in the matcher. -/
structure Route (C : Type*) where
  callback : C
  method : Text
  url : Text
  word : ∀ c ∈ method, isWord c = true

/-- What a request is matched by: its method and the path of its URL, both taken from the
first line of the request. -/
structure Request where
  method : Text
  path : Text
  word : ∀ c ∈ method, isWord c = true
  line : '\n' ∉ path

def Request.pair (q : Request) : Text := q.method ++ ' ' :: q.path

/-- `split /(\*+)/`: the stars of a URL one behind the other make one part. -/
def splitStars (url : Text) : List Text := url.splitBy fun a b => (a == '*') == (b == '*')

/-- Three stars or more are quoted like any other text. -/
def part (group : Text) : GreedyCaptures.Part Char :=
  if group = ['*', '*'] then .run (· != '\n')
  else if group = ['*'] then .run (· != '/')
  else .literal group

def parts (url : Text) : List (GreedyCaptures.Part Char) := (splitStars url).map part

/-- `$` also matches before a newline that ends the text. -/
def lineEnd (x : Text) : Bool := x == [] || x == ['\n']

variable {C : Type*}

namespace Route

def hasStars (r : Route C) : Bool := r.url.contains '*'

def matcher (r : Route C) : List (GreedyCaptures.Part Char) :=
  if r.hasStars then .literal (r.method ++ [' ']) :: parts r.url
  else [.literal (r.method ++ ' ' :: r.url)]

def matchPair (r : Route C) (pair : Text) : Option (List Text) := captures lineEnd r.matcher pair

end Route

/-- The result of a match in list context: without any group it is the number one. -/
def listed (cs : List Text) : List Text := if cs.isEmpty then [['1']] else cs

/-! ### The server -/

structure Server (C : Type*) where
  routes : List (Route C)
  cache : Text → Option C

namespace Server

def empty : Server C := ⟨[], fun _ => none⟩

/-- `sort` is a merge sort: routes of the same length keep their order. -/
def setHttpRequestProcessor (s : Server C) (r : Route C) : Server C where
  routes := byKey (·.url.length) (s.routes ++ [r])
  cache pair := if (r.matchPair pair).isSome then none else s.cache pair

/-- The first route of the table that matches, with what it captures. -/
def scan (s : Server C) (pair : Text) : Option (Route C × List Text) :=
  s.routes.findSome? fun r => (r.matchPair pair).map (r, ·)

/-- The test in front of the cache looks for the key `pair`, and not for the one at hand. -/
def getHttpRequestProcessor (s : Server C) (q : Request) : Option (C × List Text) × Server C :=
  if (s.cache "pair".toList).isSome then ((s.cache q.pair).map (·, []), s)
  else
    match s.scan q.pair with
    | none => (none, s)
    | some (r, cs) =>
      if r.hasStars then (some (r.callback, listed cs), s)
      else
        (some (r.callback, []),
          { s with cache := Function.update s.cache q.pair (some r.callback) })

end Server

inductive Event (C : Type*)
  | register (r : Route C)
  | request (q : Request)

def Server.step (s : Server C) : Event C → Server C
  | .register r => s.setHttpRequestProcessor r
  | .request q => (s.getHttpRequestProcessor q).2

/-- The server after registrations and requests in any order. -/
def served (events : List (Event C)) : Server C := events.foldl Server.step .empty

def registered (events : List (Event C)) : List (Route C) :=
  events.filterMap fun
    | .register r => some r
    | .request _ => none

/-! ### What a request should get -/

namespace Route

/-- The path is the URL with a text in place of each star, and the texts are the longest
such, the first ones counting first. -/
def Captures (r : Route C) (q : Request) (cs : List Text) : Prop :=
  q.method = r.method ∧ Greatest List.isEmpty (parts r.url) cs q.path

def Takes (r : Route C) (q : Request) : Prop := ∃ cs, r.Captures q cs

/-- The captures as the processor receives them. -/
def handed (r : Route C) (cs : List Text) : List Text := if r.hasStars then listed cs else []

end Route

/-- The route is the shortest of those that take the request, and the earliest of these. -/
def Chosen (routes : List (Route C)) (q : Request) (r : Route C) : Prop :=
  Least (·.url.length) (·.Takes q) routes r

/-! ### The matcher -/

theorem parts_plain {url : Text} (h : url.contains '*' = false) :
    url = [] ∧ parts url = [] ∨ parts url = [.literal url] := by
  by_cases hnil : url = []
  · exact .inl ⟨hnil, by rw [hnil]; rfl⟩
  · refine .inr ?_
    have hplain : ∀ c ∈ url, (c == '*') = false := by
      intro c hc
      refine beq_eq_false_iff_ne.mpr ?_
      rintro rfl
      rw [List.contains_iff_mem.mpr hc] at h
      exact absurd h (by simp)
    have hsplit : splitStars url = [url] := by
      refine List.splitBy_of_isChain hnil (List.Pairwise.isChain ?_)
      refine List.pairwise_of_forall_mem_list fun a ha b hb => ?_
      rw [hplain a ha, hplain b hb]
      rfl
    have hstar : '*' ∉ url := fun hmem => absurd (hplain '*' hmem) (by simp)
    have hdouble : url ≠ ['*', '*'] := by
      rintro rfl
      exact hstar (by simp)
    have hsingle : url ≠ ['*'] := by
      rintro rfl
      exact hstar (by simp)
    rw [parts, hsplit, List.map_singleton, part, if_neg hdouble, if_neg hsingle]

theorem pair_split {method method' x y : Text} (h : ∀ c ∈ method, isWord c = true)
    (h' : ∀ c ∈ method', isWord c = true) (heq : method ++ ' ' :: x = method' ++ ' ' :: y) :
    method = method' ∧ x = y := by
  have hword : ∀ {m z : Text}, (∀ c ∈ m, isWord c = true) →
      (m ++ ' ' :: z).takeWhile isWord = m := by
    intro m z hm
    rw [List.takeWhile_append_of_pos hm, List.takeWhile_cons_of_neg (by decide), List.append_nil]
  have hmethod : method = method' := by
    rw [← hword (z := x) h, heq, hword h']
  subst hmethod
  exact ⟨rfl, (List.cons.inj (List.append_cancel_left heq)).2⟩

/-- Within one line the end of a line is the end of the text. -/
theorem fits_line {ps : List (GreedyCaptures.Part Char)} {cs : List Text} {x : Text} (h : '\n' ∉ x) :
    Fits lineEnd ps cs x ↔ Fits List.isEmpty ps cs x := by
  refine ⟨fun hfit => hfit.mono ?_, fun hfit => hfit.mono ?_⟩
  · intro y hy hend
    rcases Bool.or_eq_true_iff.mp hend with hnil | hnewline
    · exact List.isEmpty_iff.mpr (eq_of_beq hnil)
    · exact absurd (hy.subset (by simp [eq_of_beq hnewline])) h
  · intro y _ hend
    rw [List.isEmpty_iff.mp hend]
    rfl

namespace Route

variable {r : Route C} {q : Request} {cs : List Text}

/-- The matcher of the method and the URL, whether or not the URL has stars. -/
theorem fits_matcher :
    Fits lineEnd r.matcher cs q.pair ↔
      q.method = r.method ∧ Fits List.isEmpty (parts r.url) cs q.path := by
  rw [← fits_line q.line, matcher]
  cases hstars : r.hasStars with
  | true =>
    rw [if_pos rfl, fits_literal_iff]
    constructor
    · rintro ⟨x, hx, hfit⟩
      rw [List.append_assoc] at hx
      obtain ⟨hmethod, rfl⟩ := pair_split q.word r.word hx
      exact ⟨hmethod, hfit⟩
    · rintro ⟨hmethod, hfit⟩
      refine ⟨q.path, ?_, hfit⟩
      rw [Request.pair, hmethod, List.append_assoc]
      rfl
  | false =>
    rw [if_neg (by simp), fits_literal_iff]
    have hplain : Fits lineEnd (parts r.url) cs q.path ↔
        ∃ x, q.path = r.url ++ x ∧ Fits lineEnd [] cs x := by
      rcases parts_plain hstars with ⟨hnil, hparts⟩ | hparts
      · rw [hparts, hnil]
        exact ⟨fun h => ⟨q.path, rfl, h⟩, fun ⟨x, hx, h⟩ => hx ▸ h⟩
      · rw [hparts, fits_literal_iff]
    rw [hplain]
    constructor
    · rintro ⟨x, hx, hfit⟩
      rw [List.append_assoc, List.cons_append] at hx
      obtain ⟨hmethod, hpath⟩ := pair_split q.word r.word hx
      exact ⟨hmethod, x, hpath, hfit⟩
    · rintro ⟨hmethod, x, hpath, hfit⟩
      refine ⟨x, ?_, hfit⟩
      rw [Request.pair, hmethod, hpath, List.append_assoc, List.cons_append]

theorem matchPair_eq_some_iff : r.matchPair q.pair = some cs ↔ r.Captures q cs := by
  rw [matchPair, captures_eq_some_iff, Greatest, Captures, Greatest]
  simp only [fits_matcher]
  constructor
  · rintro ⟨⟨hmethod, hfit⟩, hgreatest⟩
    exact ⟨hmethod, hfit, fun cs' h => hgreatest cs' ⟨hmethod, h⟩⟩
  · rintro ⟨hmethod, hfit, hgreatest⟩
    exact ⟨⟨hmethod, hfit⟩, fun cs' h => hgreatest cs' h.2⟩

example : captures lineEnd (parts "/printer/*/printjob".toList) "/printer/lp/printjob".toList =
    some ["lp".toList] := by decide

theorem matchPair_eq_none_iff : r.matchPair q.pair = none ↔ ¬ r.Takes q := by
  rw [Option.eq_none_iff_forall_ne_some, Takes, not_exists]
  exact forall_congr' fun cs => not_congr matchPair_eq_some_iff

/-- A route takes the requests whose path is its URL with texts in place of the stars. -/
theorem takes_iff :
    r.Takes q ↔ q.method = r.method ∧ ∃ cs, Fits List.isEmpty (parts r.url) cs q.path := by
  constructor
  · rintro ⟨cs, hmethod, hfit, -⟩
    exact ⟨hmethod, cs, hfit⟩
  · rintro ⟨hmethod, cs, hfit⟩
    by_contra hnot
    rw [← matchPair_eq_none_iff, matchPair, captures_eq_none_iff] at hnot
    exact hnot cs (fits_matcher.mpr ⟨hmethod, hfit⟩)

end Route

/-! ### The table and the cache over the events -/

namespace Server

/-- The table is sorted, and no answer stands under the key that is looked for. -/
structure Holds (s : Server C) (routes : List (Route C)) : Prop where
  sorted : StablySorted (·.url.length) routes s.routes
  unused : s.cache "pair".toList = none

variable {s : Server C} {routes : List (Route C)} {q : Request} {r : Route C} {cs : List Text}

theorem scan_eq_some_iff :
    s.scan q.pair = some (r, cs) ↔ First (·.Takes q) s.routes r ∧ r.Captures q cs := by
  rw [scan, List.findSome?_eq_some_iff]
  simp only [Option.map_eq_none_iff, Route.matchPair_eq_none_iff, Option.map_eq_some_iff,
    Route.matchPair_eq_some_iff]
  constructor
  · rintro ⟨front, a, back, hroutes, ⟨ds, hds, heq⟩, hfront⟩
    obtain ⟨rfl, rfl⟩ := Prod.mk.inj heq
    exact ⟨⟨⟨ds, hds⟩, front, back, hroutes, hfront⟩, hds⟩
  · rintro ⟨⟨-, front, back, hroutes, hfront⟩, hcs⟩
    exact ⟨front, r, back, hroutes, ⟨cs, hcs, rfl⟩, hfront⟩

theorem Holds.scan_iff (h : s.Holds routes) :
    s.scan q.pair = some (r, cs) ↔ Chosen routes q r ∧ r.Captures q cs := by
  rw [scan_eq_some_iff, h.sorted.first_iff_least]
  rfl

theorem Holds.answer (h : s.Holds routes) :
    (s.getHttpRequestProcessor q).1 =
      (s.scan q.pair).map fun found => (found.1.callback, found.1.handed found.2) := by
  rw [getHttpRequestProcessor, h.unused, if_neg (by simp)]
  cases s.scan q.pair with
  | none => rfl
  | some found =>
    obtain ⟨r, cs⟩ := found
    simp only [Option.map_some, Route.handed]
    cases r.hasStars <;> rfl

theorem pair_ne (q : Request) : "pair".toList ≠ q.pair := by
  intro h
  have hspace : ' ' ∈ q.pair := by simp [Request.pair]
  rw [← h] at hspace
  exact absurd hspace (by decide)

theorem Holds.request (h : s.Holds routes) (q : Request) : (s.step (.request q)).Holds routes := by
  rw [step, getHttpRequestProcessor, h.unused, if_neg (by simp)]
  cases s.scan q.pair with
  | none => exact h
  | some found =>
    obtain ⟨r, cs⟩ := found
    dsimp only
    split
    · exact h
    · exact ⟨h.sorted, (Function.update_of_ne (pair_ne q) _ _).trans h.unused⟩

theorem Holds.register (h : s.Holds routes) (r : Route C) :
    (s.step (.register r)).Holds (routes ++ [r]) := by
  refine ⟨h.sorted.add r, ?_⟩
  show (if (r.matchPair "pair".toList).isSome then none else s.cache "pair".toList) = none
  rw [h.unused, ite_self]

end Server

theorem holds_served (events : List (Event C)) : (served events).Holds (registered events) := by
  induction events using List.reverseRecOn with
  | nil => exact ⟨.nil, rfl⟩
  | append_singleton events event ih =>
    rw [served, List.foldl_append, registered, List.filterMap_append]
    cases event with
    | register r => exact ih.register r
    | request q =>
      rw [List.filterMap_cons_none rfl, List.filterMap_nil, List.append_nil]
      exact ih.request q

/-- Whatever has been registered and asked for before, a request goes to the shortest of the
routes that take it and to the earliest of these, with the longest texts that make its path
out of the route's URL, and it goes nowhere exactly if no route takes it. -/
theorem routing_exact (events : List (Event C)) (q : Request) :
    (((served events).getHttpRequestProcessor q).1 = none ↔
      ∀ r ∈ registered events, ¬ r.Takes q) ∧
    ∀ callback handed, ((served events).getHttpRequestProcessor q).1 = some (callback, handed) ↔
      ∃ r cs, Chosen (registered events) q r ∧ r.Captures q cs ∧ callback = r.callback ∧
        handed = r.handed cs := by
  have hholds := holds_served events
  rw [hholds.answer]
  constructor
  · rw [Option.map_eq_none_iff]
    constructor
    · intro hnone r hr htakes
      obtain ⟨first, hfirst⟩ :=
        exists_first (p := (·.Takes q)) (hholds.sorted.mem_iff.mpr hr) htakes
      obtain ⟨cs, hcs⟩ := hfirst.1
      rw [Server.scan_eq_some_iff.mpr ⟨hfirst, hcs⟩] at hnone
      exact absurd hnone (by simp)
    · intro hnot
      rw [Option.eq_none_iff_forall_ne_some]
      rintro ⟨r, cs⟩ hscan
      have hchosen := (hholds.scan_iff.mp hscan).1
      exact hnot r hchosen.mem hchosen.1
  · intro callback handed
    rw [Option.map_eq_some_iff]
    constructor
    · rintro ⟨⟨r, cs⟩, hscan, heq⟩
      obtain ⟨rfl, rfl⟩ := Prod.mk.inj heq
      obtain ⟨hchosen, hcs⟩ := hholds.scan_iff.mp hscan
      exact ⟨r, cs, hchosen, hcs, rfl, rfl⟩
    · rintro ⟨r, cs, hchosen, hcs, rfl, rfl⟩
      exact ⟨(r, cs), hholds.scan_iff.mpr ⟨hchosen, hcs⟩, rfl⟩

end Qvd.RequestRouting
