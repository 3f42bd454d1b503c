import Mathlib
import JvmFold.Proofs.Universe.Searches

/-!
# The Order of Ancestors

A walk comes upon a name by a way, and a way is known by the turns that it
takes. Shorter ways come first, and of two ways of one length the one that takes
the earlier turn where they part. A walk passes over a name that it has come upon
already, so it comes upon every name by the first way to it, and the order of the
ancestors of a class is the order of these ways.

Which default method a class inherits is decided by this order. It says nothing
about which interface is more specific: an interface that a class names stands in
front of another one that extends it, if the class names it first, and always if
the way to the other one is longer. So the method that is inherited can be one
that is overridden.

## Main definitions

* `Way`: The ways from some names along what these lead to.
* `Nearer`: Whether the first way to a name comes before all ways to another one.
* `Underway`: What is known of a walk when it has gone through some levels.
* `Universe.HasInterface`: The interfaces among the ancestors of a class that pass a test.
* `Universe.Offers`: The interfaces among the ancestors of a class that have a method for it.
* `Universe.Refines`: Proper subtypes.

## Theorems

* `Underway.step`: One level of a walk.
* `walk_nearer`: What a walk comes upon, and in which order.
* `Universe.reaches_iff`: A type reaches what supertypes lead to.
* `Universe.ancestors?_nearer`: The order of the ancestors.
* `Universe.defaultSearch_most_specific_iff`: Which default method is inherited, and when no other
  one overrides it.
* `Universe.default_overridden`: A class that inherits a method that is overridden.
-/

namespace JvmFold

/-- A way to a name. The first position is the one of a name to start from, and every further
    position is the one of a name among those that `next` leads to. -/
inductive Way (next : String → List String) (start : List String) : List Nat → String → Prop
  | first {k : Nat} {name : String} (h : start[k]? = some name) : Way next start [k] name
  | further {way : List Nat} {name link : String} {k : Nat} (hway : Way next start way name)
      (h : (next name)[k]? = some link) : Way next start (way ++ [k]) link

/-- The rank of a way. A shorter way comes first, and of two ways of one length the one that takes
    the earlier turn where they part. -/
def wayRank (way : List Nat) : ℕ ×ₗ List ℕ :=
  toLex (way.length, way)

section Rank

variable {way way' : List Nat} {j k : Nat}

/-- A shorter way is nearer, and of two as long the one whose turns come first. -/
theorem wayRank_lt_iff : wayRank way < wayRank way' ↔
    way.length < way'.length ∨ way.length = way'.length ∧ way < way' :=
  Prod.Lex.toLex_lt_toLex

-- Ways of one length part at a turn that both of them take.
theorem lex_append (h : List.Lex (· < ·) way way') (hlength : way.length = way'.length)
    (j k : Nat) : List.Lex (· < ·) (way ++ [j]) (way' ++ [k]) := by
  induction h with
  | nil => cases hlength
  | cons _ ih => exact .cons (ih (Nat.succ.inj hlength))
  | rel hturn => exact .rel hturn

/-- Ways go on ranking as they do, whatever turns they take. -/
theorem wayRank_append_lt (h : wayRank way < wayRank way') (j k : Nat) :
    wayRank (way ++ [j]) < wayRank (way' ++ [k]) := by
  rw [wayRank_lt_iff] at h ⊢
  rw [List.length_append, List.length_append, List.length_singleton, List.length_singleton]
  exact h.imp (Nat.add_lt_add_right · 1) fun ⟨hlength, hlt⟩ =>
    ⟨congrArg (· + 1) hlength, lex_append hlt hlength j k⟩

/-- One turn more keeps the order. -/
theorem wayRank_append_le (h : wayRank way ≤ wayRank way') (k : Nat) :
    wayRank (way ++ [k]) ≤ wayRank (way' ++ [k]) := by
  rcases h.lt_or_eq with hlt | heq
  · exact (wayRank_append_lt hlt k k).le
  · have hway : way = way' := (Prod.ext_iff.mp (toLex.injective heq)).2
    rw [hway]

-- And of two turns the earlier one is nearer.
theorem wayRank_append_of_lt (way : List Nat) (h : j < k) :
    wayRank (way ++ [j]) < wayRank (way ++ [k]) := by
  rw [wayRank_lt_iff]
  have hlex : List.Lex (· < ·) (way ++ [j]) (way ++ [k]) := .append_left _ (.rel h) way
  exact .inr ⟨by simp, hlex⟩

end Rank

section Nearer

variable {next : String → List String} {start : List String} {a b : String}

/-- One of the ways to a name ranks before all ways to another one. -/
def Nearer (next : String → List String) (start : List String) (a b : String) : Prop :=
  ∃ way, Way next start way a ∧ ∀ way', Way next start way' b → wayRank way < wayRank way'

/-- Of two classes only one is nearer. -/
theorem Nearer.asymm (h : Nearer next start a b) : ¬Nearer next start b a := by
  rintro ⟨back, hback, hall⟩
  rcases h with ⟨way, hway, hall'⟩
  exact lt_asymm (hall way hway) (hall' back hback)

end Nearer

/-- A name with a way to it. -/
abbrev Station := List Nat × String

section Walk

variable {next : String → List String} {start : List String}

/-- Names, each with the turn that leads to it behind a way. -/
def stations (way : List Nat) (names : List String) : List Station :=
  names.zipIdx.map fun (name, k) => (way ++ [k], name)

/-- The names that are stationed are the ones given. -/
theorem map_snd_stations (way : List Nat) (names : List String) :
    (stations way names).map Prod.snd = names := by
  unfold stations
  rw [List.map_map]
  exact List.zipIdx_map_fst 0 names

/-- Each of them by one turn more. -/
theorem mem_stations {way : List Nat} {names : List String} {p : Station} :
    p ∈ stations way names ↔ ∃ k, names[k]? = some p.2 ∧ p.1 = way ++ [k] := by
  unfold stations
  simp only [List.mem_map, Prod.exists, List.mem_zipIdx_iff_getElem?]
  constructor
  · rintro ⟨name, k, hname, rfl⟩
    exact ⟨k, hname, rfl⟩
  · rintro ⟨k, hname, hway⟩
    exact ⟨p.2, k, hname, by rw [← hway]⟩

/-- Stations by the ranks of their ways. -/
def Ranked (l : List Station) : Prop :=
  l.Pairwise fun p q => wayRank p.1 < wayRank q.1

/-- In the order of the turns. -/
theorem ranked_stations (way : List Nat) (names : List String) : Ranked (stations way names) := by
  have hturns : (names.zipIdx.map Prod.snd).Pairwise (· < ·) := by
    rw [List.zipIdx_map_snd]
    exact List.pairwise_lt_range'
  unfold Ranked stations
  rw [List.pairwise_map] at hturns ⊢
  exact hturns.imp fun h => wayRank_append_of_lt way h

/-- The stations behind some stations. -/
def following (next : String → List String) (l : List Station) : List Station :=
  l.flatMap fun p => stations p.1 (next p.2)

/-- The names that follow are those of the next level. -/
theorem map_snd_following (l : List Station) :
    (following next l).map Prod.snd = (l.map Prod.snd).flatMap next := by
  unfold following
  rw [List.map_flatMap, List.flatMap_map]
  simp only [map_snd_stations]

/-- Each of them by one turn from where it follows. -/
theorem mem_following {l : List Station} {q : Station} : q ∈ following next l ↔
    ∃ p ∈ l, ∃ k, (next p.2)[k]? = some q.2 ∧ q.1 = p.1 ++ [k] := by
  simp only [following, List.mem_flatMap, mem_stations]

/-- In the order of their ways. -/
theorem ranked_following {l : List Station} (h : Ranked l) : Ranked (following next l) := by
  unfold Ranked following
  rw [List.pairwise_flatMap]
  refine ⟨fun p _ => ranked_stations p.1 (next p.2), h.imp fun {p q} hpq x hx y hy => ?_⟩
  rcases mem_stations.mp hx with ⟨j, -, hx⟩
  rcases mem_stations.mp hy with ⟨k, -, hy⟩
  rw [hx, hy]
  exact wayRank_append_lt hpq j k

/-- The first stations that lead to the names that are new. -/
theorem exists_fresh (seen : Std.HashSet String) {ahead : List Station} (h : Ranked ahead) :
    ∃ l : List Station, l.Sublist ahead ∧ l.map Prod.snd = Trail.fresh seen (ahead.map Prod.snd) ∧
      ∀ p ∈ ahead, seen.contains p.2 = false → ∃ q ∈ l, q.2 = p.2 ∧ wayRank q.1 ≤ wayRank p.1 := by
  induction ahead generalizing seen with
  | nil => exact ⟨[], .refl _, rfl, fun p hp => absurd hp List.not_mem_nil⟩
  | cons first rest ih =>
      rcases List.pairwise_cons.mp h with ⟨hfirst, hrest⟩
      rw [List.map_cons, Trail.fresh]
      by_cases hseen : seen.contains first.2
      · rcases ih seen hrest with ⟨l, hl, hnames, hall⟩
        rw [if_pos hseen]
        refine ⟨l, hl.cons first, hnames, fun p hp hnew => ?_⟩
        rcases List.mem_cons.mp hp with rfl | hp
        · rw [hseen] at hnew
          cases hnew
        · exact hall p hp hnew
      · rcases ih (seen.insert first.2) hrest with ⟨l, hl, hnames, hall⟩
        rw [if_neg hseen]
        refine ⟨first :: l, hl.cons_cons first, congrArg (first.2 :: ·) hnames, fun p hp hnew => ?_⟩
        -- Another station with this name comes later, and so by a way that ranks behind.
        by_cases hname : p.2 = first.2
        · refine ⟨first, List.mem_cons_self, hname.symm, ?_⟩
          rcases List.mem_cons.mp hp with rfl | hp
          · exact le_rfl
          · exact (hfirst p hp).le
        · have hp : p ∈ rest := (List.mem_cons.mp hp).resolve_left fun he => hname (he ▸ rfl)
          rcases hall p hp (by simp [hnew, Ne.symm hname]) with ⟨q, hq, hpq⟩
          exact ⟨q, List.mem_cons_of_mem first hq, hpq⟩

/-- A walk that has been going for some levels: the stations that it has passed, and those of the
    level ahead. -/
structure Underway (next : String → List String) (start : List String) (n : Nat)
    (passed ahead : List Station) : Prop where
  way_passed : ∀ p ∈ passed, Way next start p.1 p.2 ∧ p.1.length ≤ n
  way_ahead : ∀ p ∈ ahead, Way next start p.1 p.2 ∧ p.1.length = n + 1
  ranked_passed : Ranked passed
  ranked_ahead : Ranked ahead
  nodup : (passed.map Prod.snd).Nodup
  /-- Where a way of the levels so far leads to, a station with no later way has been passed. -/
  passes : ∀ way name, Way next start way name → way.length ≤ n →
    ∃ p ∈ passed, p.2 = name ∧ wayRank p.1 ≤ wayRank way
  /-- Where a way of the next level leads to, there is also a station ahead. -/
  reaches : ∀ way name, Way next start way name → way.length = n + 1 →
    ∃ p ∈ passed ++ ahead, p.2 = name ∧ wayRank p.1 ≤ wayRank way

/-- A way has at least one turn. -/
theorem Way.length_pos {way : List Nat} {name : String} (h : Way next start way name) :
    0 < way.length := by
  cases h <;> simp

/-- A walk begins with the names to start from ahead. -/
theorem underway_start : Underway next start 0 [] (stations [] start) where
  way_passed p hp := absurd hp List.not_mem_nil
  way_ahead p hp := by
    rcases mem_stations.mp hp with ⟨k, hname, hway⟩
    rw [hway]
    exact ⟨.first hname, rfl⟩
  ranked_passed := .nil
  ranked_ahead := ranked_stations [] start
  nodup := List.nodup_nil
  passes way name hway hlength := by
    -- A way of one turn leads to a start; any other is longer.
    have hpos := hway.length_pos
    omega
  reaches way name hway hlength := by
    cases hway with
    | first h => exact ⟨(_, name), mem_stations.mpr ⟨_, h, rfl⟩, rfl, le_rfl⟩
    | further hway h =>
        have hpos := hway.length_pos
        rw [List.length_append, List.length_singleton] at hlength
        omega

/-- No name is fresh twice. -/
theorem nodup_fresh (seen : Std.HashSet String) (level : List String) :
    (Trail.fresh seen level).Nodup := by
  induction level generalizing seen with
  | nil => exact List.nodup_nil
  | cons name rest ih =>
      unfold Trail.fresh
      by_cases hname : seen.contains name
      · rw [if_pos hname]
        exact ih seen
      · rw [if_neg hname]
        refine List.nodup_cons.mpr ⟨fun hmem => ?_, ih _⟩
        have hnew := (Trail.mem_fresh.mp hmem).2
        simp at hnew

/-- What is new and without repetition is fresh as it is. -/
theorem fresh_eq_self {seen : Std.HashSet String} {level : List String} (hnodup : level.Nodup)
    (hnew : ∀ name ∈ level, seen.contains name = false) : Trail.fresh seen level = level := by
  induction level generalizing seen with
  | nil => rfl
  | cons first rest ih =>
      rcases List.nodup_cons.mp hnodup with ⟨hfirst, hrest⟩
      rcases List.forall_mem_cons.mp hnew with ⟨hnew, hall⟩
      rw [Trail.fresh, if_neg (by simp [hnew]), ih hrest fun name hname => ?_]
      have hne : first ≠ name := fun he => hfirst (he ▸ hname)
      simp [hall name hname, hne]

namespace Underway

variable {n : Nat} {passed ahead fresh : List Station} {seen : Std.HashSet String}

/-- What was passed is nearer than what lies ahead. -/
theorem rank_lt (h : Underway next start n passed ahead) {p q : Station} (hp : p ∈ passed)
    (hq : q ∈ ahead) : wayRank p.1 < wayRank q.1 := by
  have hlength := (h.way_passed p hp).2
  rw [wayRank_lt_iff, (h.way_ahead q hq).2]
  exact .inl (Nat.lt_succ_of_le hlength)

/-- A walk goes on by passing the stations ahead that are new. -/
theorem step (h : Underway next start n passed ahead)
    (hseen : ∀ name, seen.contains name = true ↔ name ∈ passed.map Prod.snd)
    (hsublist : fresh.Sublist ahead)
    (hfresh : fresh.map Prod.snd = Trail.fresh seen (ahead.map Prod.snd))
    (hfirst : ∀ p ∈ ahead, seen.contains p.2 = false →
      ∃ q ∈ fresh, q.2 = p.2 ∧ wayRank q.1 ≤ wayRank p.1) :
    Underway next start (n + 1) (passed ++ fresh) (following next fresh) := by
  have hpasses (way : List Nat) (name : String) (hway : Way next start way name)
      (hlength : way.length ≤ n + 1) :
      ∃ p ∈ passed ++ fresh, p.2 = name ∧ wayRank p.1 ≤ wayRank way := by
    rcases Nat.le_succ_iff.mp hlength with hlength | hlength
    · rcases h.passes way name hway hlength with ⟨p, hp, hname, hrank⟩
      exact ⟨p, List.mem_append_left _ hp, hname, hrank⟩
    · rcases h.reaches way name hway hlength with ⟨p, hp, rfl, hrank⟩
      rcases List.mem_append.mp hp with hp | hp
      · exact ⟨p, List.mem_append_left _ hp, rfl, hrank⟩
      by_cases hnew : seen.contains p.2
      · rcases List.mem_map.mp ((hseen p.2).mp hnew) with ⟨q, hq, hname⟩
        exact ⟨q, List.mem_append_left _ hq, hname, (h.rank_lt hq hp).le.trans hrank⟩
      · rcases hfirst p hp (by simpa using hnew) with ⟨q, hq, hname, hqp⟩
        exact ⟨q, List.mem_append_right _ hq, hname, hqp.trans hrank⟩
  have hahead {p : Station} (hp : p ∈ fresh) := hsublist.subset hp
  have hranked : Ranked fresh := h.ranked_ahead.sublist hsublist
  refine ⟨fun p hp => ?_, fun q hq => ?_, ?_, ranked_following hranked, ?_, hpasses, ?_⟩
  · rcases List.mem_append.mp hp with hp | hp
    · exact ⟨(h.way_passed p hp).1, Nat.le_succ_of_le (h.way_passed p hp).2⟩
    · exact ⟨(h.way_ahead p (hahead hp)).1, (h.way_ahead p (hahead hp)).2.le⟩
  · rcases mem_following.mp hq with ⟨p, hp, k, hlink, hway⟩
    rcases h.way_ahead p (hahead hp) with ⟨hp, hlength⟩
    rw [hway]
    exact ⟨hp.further hlink, by simp [hlength]⟩
  · exact List.pairwise_append.mpr ⟨h.ranked_passed, hranked, fun p hp q hq =>
      h.rank_lt hp (hahead hq)⟩
  · rw [List.map_append, hfresh]
    refine h.nodup.append (nodup_fresh seen _) fun name hpassed hmem => ?_
    have hnew := (Trail.mem_fresh.mp hmem).2
    rw [(hseen name).mpr hpassed] at hnew
    cases hnew
  · intro way link hway hlength
    cases hway with
    | first _ => simp at hlength
    | @further way name _ k hway hlink =>
        rw [List.length_append, List.length_singleton, Nat.succ_inj] at hlength
        rcases hpasses way name hway hlength.le with ⟨p, hp, rfl, hrank⟩
        have hturn := wayRank_append_le hrank k
        rcases List.mem_append.mp hp with hp | hp
        -- What a station leads to that was passed before has been passed by now.
        · rcases h.way_passed p hp with ⟨hp, hlength⟩
          rcases hpasses _ _ (hp.further hlink) (by simpa using hlength) with ⟨q, hq, hname, hqp⟩
          exact ⟨q, List.mem_append_left _ hq, hname, hqp.trans hturn⟩
        · exact ⟨(p.1 ++ [k], link), List.mem_append_right _
            (mem_following.mpr ⟨p, hp, k, hlink, rfl⟩), rfl, hturn⟩

/-- A walk that is underway goes on until no station is ahead. -/
theorem extend (before : List String) (h : Underway next start n passed ahead) {t t' : Trail}
    (hextend : t.extend next (ahead.map Prod.snd) = some t')
    (hnames : before ++ t.names.reverse = passed.map Prod.snd)
    (hseen : ∀ name, t.seen.contains name = true ↔ name ∈ passed.map Prod.snd) :
    ∃ n' passed', Underway next start n' passed' [] ∧
      before ++ t'.names.reverse = passed'.map Prod.snd := by
  have hwalk := Trail.extend.partial_correctness next fun t level t' => ∀ n passed ahead,
    Underway next start n passed ahead → level = ahead.map Prod.snd →
      before ++ t.names.reverse = passed.map Prod.snd →
        (∀ name, t.seen.contains name = true ↔ name ∈ passed.map Prod.snd) →
          ∃ n' passed', Underway next start n' passed' [] ∧
            before ++ t'.names.reverse = passed'.map Prod.snd
  refine hwalk ?_ t _ t' hextend n passed ahead h rfl hnames hseen
  intro walk ih t level t' hwalk n passed ahead h hlevel hnames hseen
  by_cases hempty : level.isEmpty
  · rw [if_pos hempty] at hwalk
    cases hwalk
    rw [hlevel, List.isEmpty_map, List.isEmpty_iff] at hempty
    subst hempty
    exact ⟨n, passed, h, hnames⟩
  · rw [if_neg hempty, Trail.foldl_visit] at hwalk
    -- One round goes to the stations with names that are new, each by its first way.
    rcases exists_fresh t.seen h.ranked_ahead with ⟨fresh, hsublist, hfresh, hfirst⟩
    rw [← hlevel] at hfresh
    refine ih _ _ t' hwalk (n + 1) (passed ++ fresh) (following next fresh) ?_ ?_ ?_ fun name => ?_
    · exact h.step hseen hsublist (hlevel ▸ hfresh) hfirst
    · rw [map_snd_following, hfresh, List.append_nil, List.reverse_reverse]
    · rw [List.map_append, hfresh, ← hnames, Trail.add, List.reverse_append, List.reverse_reverse,
        List.append_assoc]
    · rw [Trail.contains_add, Bool.or_eq_true, hseen, List.map_append, hfresh, List.mem_append,
        List.contains_iff_mem]

/-- When no station is ahead, every way leads to a station with no later way. -/
theorem covers (h : Underway next start n passed []) {way : List Nat} {name : String}
    (hway : Way next start way name) :
    ∃ p ∈ passed, p.2 = name ∧ wayRank p.1 ≤ wayRank way := by
  have hshort (way : List Nat) (name : String) (hway : Way next start way name)
      (hlength : way.length ≤ n + 1) : ∃ p ∈ passed, p.2 = name ∧ wayRank p.1 ≤ wayRank way := by
    rcases Nat.le_succ_iff.mp hlength with hlength | hlength
    · exact h.passes way name hway hlength
    · simpa using h.reaches way name hway hlength
  induction hway with
  | @first k name hname => exact hshort [k] name (.first hname) (by simp)
  | @further way name link k hway hlink ih =>
      rcases ih with ⟨p, hp, rfl, hrank⟩
      rcases h.way_passed p hp with ⟨hp, hlength⟩
      rcases hshort _ _ (hp.further hlink) (by simpa using hlength) with ⟨q, hq, hname, hqp⟩
      exact ⟨q, hq, hname, hqp.trans (wayRank_append_le hrank k)⟩

/-- In the end every name was passed that some way leads to. -/
theorem mem_names_iff (h : Underway next start n passed []) {name : String} :
    name ∈ passed.map Prod.snd ↔ ∃ way, Way next start way name := by
  constructor
  · intro hname
    rcases List.mem_map.mp hname with ⟨p, hp, rfl⟩
    exact ⟨p.1, (h.way_passed p hp).1⟩
  · rintro ⟨way, hway⟩
    rcases h.covers hway with ⟨p, hp, rfl, -⟩
    exact List.mem_map_of_mem hp

/-- The names have been come upon in the order of the first ways to them. -/
theorem pairwise_nearer (h : Underway next start n passed []) :
    (passed.map Prod.snd).Pairwise (Nearer next start) := by
  rw [List.pairwise_map]
  refine h.ranked_passed.imp_of_mem fun {p q} hp hq hpq => ?_
  refine ⟨p.1, (h.way_passed p hp).1, fun way hway => hpq.trans_le ?_⟩
  rcases h.covers hway with ⟨r, hr, hname, hrank⟩
  rw [← List.inj_on_of_nodup_map h.nodup hr hq hname]
  exact hrank

end Underway

/-- A walk comes upon everything that ways lead to, in the order of the first ways. -/
theorem walk_nearer {names : List String} (h : walk next [] start = some names) :
    names.Pairwise (Nearer next start) ∧ ∀ name, name ∈ names ↔ ∃ way, Way next start way name := by
  rcases Option.map_eq_some_iff.mp h with ⟨t, ht, rfl⟩
  rw [← map_snd_stations [] start] at ht
  rcases underway_start.extend [] ht rfl (by simp) with ⟨n, passed, hdone, hnames⟩
  rw [List.nil_append] at hnames
  rw [hnames]
  exact ⟨hdone.pairwise_nearer, fun name => hdone.mem_names_iff⟩

/-- A walk may have come upon the names to start from before, and then it begins with what these
    lead to. -/
theorem walk_behind_nearer {names : List String} (hnodup : start.Nodup)
    (h : walk next start (start.flatMap next) = some names) :
    (start ++ names).Pairwise (Nearer next start) ∧
      ∀ name, name ∈ start ++ names ↔ ∃ way, Way next start way name := by
  rcases Option.map_eq_some_iff.mp h with ⟨t, ht, rfl⟩
  have hfresh : (stations [] start).map Prod.snd
      = Trail.fresh ∅ ((stations [] start).map Prod.snd) := by
    rw [map_snd_stations, fresh_eq_self hnodup (by simp)]
  have hseen (name : String) : (∅ : Std.HashSet String).contains name = true ↔
      name ∈ ([] : List Station).map Prod.snd := by simp
  have hunderway : Underway next start 1 _ _ := underway_start.step hseen (.refl _) hfresh
    fun p hp _ => ⟨p, hp, rfl, le_rfl⟩
  rw [List.nil_append] at hunderway
  -- The level behind the starts is what follows from them.
  have hlevel : start.flatMap next = (following next (stations [] start)).map Prod.snd := by
    rw [map_snd_following, map_snd_stations]
  rw [hlevel] at ht
  rcases hunderway.extend start ht (by simp [map_snd_stations]) (by simp [map_snd_stations]) with
    ⟨n, passed, hdone, hnames⟩
  rw [hnames]
  exact ⟨hdone.pairwise_nearer, fun name => hdone.mem_names_iff⟩

end Walk

/-- What is found first in a list by an asymmetric order is what stands in front of all else that
    could be found. -/
theorem find?_eq_some_iff_of_pairwise {α : Type} {r : α → α → Prop} {l : List α} {p : α → Bool}
    {a : α} (hr : ∀ a b, r a b → ¬r b a) (hl : l.Pairwise r) :
    l.find? p = some a ↔ a ∈ l ∧ p a = true ∧ ∀ b ∈ l, p b = true → b ≠ a → r a b := by
  -- What is found stands before all others that would do.
  have hfirst {a : α} (h : l.find? p = some a) : ∀ b ∈ l, p b = true → b ≠ a → r a b := by
    rcases List.find?_eq_some_iff_append.mp h with ⟨-, before, after, rfl, hbefore⟩
    intro b hb hpb hne
    rcases List.mem_append.mp hb with hb | hb
    · have hnot := hbefore b hb
      rw [hpb] at hnot
      cases hnot
    · have hb := (List.mem_cons.mp hb).resolve_left hne
      exact (List.pairwise_cons.mp (List.pairwise_append.mp hl).2.1).1 b hb
  constructor
  · exact fun h => ⟨List.mem_of_find?_eq_some h, List.find?_some h, hfirst h⟩
  · rintro ⟨ha, hpa, hall⟩
    rcases Option.isSome_iff_exists.mp (List.find?_isSome.mpr ⟨a, ha, hpa⟩) with ⟨b, hb⟩
    by_cases hne : b = a
    · rw [hb, hne]
    · have hab := hall b (List.mem_of_find?_eq_some hb) (List.find?_some hb) hne
      exact absurd hab (hr b a (hfirst hb a ha hpa (Ne.symm hne)))

namespace Universe

variable {u : Universe}

/-- A type reaches another one exactly if supertypes lead from it to the other one. -/
theorem reaches_iff {sub sup : String} :
    u.reaches sub sup = true ↔ ∃ way, Way u.supertypes [sub] way sup := by
  have hsupertypes (a : String) : ∀ b ∈ u.supertypes a, b ∈ sub :: u.named := fun b hb =>
    List.mem_cons_of_mem sub (mem_named_of_supertypes hb)
  have hwalk : (walk u.supertypes [] [sub]).isSome = true := walk_isSome hsupertypes (by simp)
  rcases Option.isSome_iff_exists.mp hwalk with ⟨names, hnames⟩
  unfold reaches
  rw [hnames, Option.any_some, List.contains_iff_mem, (walk_nearer hnames).2]

/-- A class and its superclasses, nearest first. -/
def line (u : Universe) (name : String) : List String :=
  name :: (u.superChain? name).getD []

/-- A line starts with the superclass. -/
theorem superChain?_cons {name parent : String} {above : List String}
    (h : u.superChain? name = some (parent :: above)) :
    u.Extends name parent ∧ u.superChain? parent = some above := by
  rw [superChain?] at h
  split at h
  · cases h
  · next c hparent =>
      rcases Option.bind_eq_some_iff.mp h with ⟨chain, habove, h⟩
      cases h
      exact ⟨hparent, habove⟩

-- And goes on through superclasses.
theorem extends_of_mem_superChain? {name c : String} {chain : List String}
    (h : u.superChain? name = some chain) (hc : c ∈ chain) :
    Relation.TransGen u.Extends name c := by
  induction chain generalizing name with
  | nil => cases hc
  | cons parent above ih =>
      rcases superChain?_cons h with ⟨hparent, habove⟩
      rcases List.mem_cons.mp hc with rfl | hc
      · exact .single hparent
      · exact .head hparent (ih habove hc)

/-- No class comes twice among its superclasses if these come to an end. -/
theorem nodup_of_superChain? {name : String} {chain : List String}
    (h : u.superChain? name = some chain) : (name :: chain).Nodup := by
  have hends : ¬ComesRound u.Extends name :=
    superChain?_isSome_iff.mp (Option.isSome_iff_exists.mpr ⟨chain, h⟩)
  refine List.nodup_cons.mpr
    ⟨fun hmem => hends ⟨name, .refl, extends_of_mem_superChain? h hmem⟩, ?_⟩
  clear hends
  -- Whatever comes again would make the line come round.
  induction chain generalizing name with
  | nil => exact List.nodup_nil
  | cons parent above ih =>
      rcases superChain?_cons h with ⟨-, habove⟩
      have hends : ¬ComesRound u.Extends parent :=
        superChain?_isSome_iff.mp (Option.isSome_iff_exists.mpr ⟨above, habove⟩)
      exact List.nodup_cons.mpr
        ⟨fun hmem => hends ⟨parent, .refl, extends_of_mem_superChain? habove hmem⟩, ih habove⟩

/-- The ancestors are all names that a way leads to from the class or a superclass, along
    interfaces, in the order of the first ways. -/
theorem ancestors?_nearer {name : String} {names : List String}
    (h : u.ancestors? name = some names) :
    names.Pairwise (Nearer u.interfaces (u.line name)) ∧
      ∀ i, i ∈ names ↔ ∃ way, Way u.interfaces (u.line name) way i := by
  rcases Option.bind_eq_some_iff.mp h with ⟨chain, hchain, -⟩
  rw [ancestors?_of_superChain? hchain] at h
  rcases Option.map_eq_some_iff.mp h with ⟨beyond, hwalk, rfl⟩
  have hline : u.line name = name :: chain := by
    rw [line, hchain]
    rfl
  rw [hline]
  exact walk_behind_nearer (nodup_of_superChain? hchain) hwalk

/-- Whether a name is one of an interface that passes a test. -/
def isInterfaceFor (u : Universe) (test : ClassFile → Bool) (i : String) : Bool :=
  (u.class? i).any fun c => c.isInterface && test c

/-- An interface of the universe among the ancestors of a class passes a test. -/
def HasInterface (u : Universe) (test : ClassFile → Bool) (name i : String) : Prop :=
  (∃ way, Way u.interfaces (u.line name) way i) ∧
    ∃ c, u.class? i = some c ∧ c.isInterface = true ∧ test c = true

section Interfaces

variable {test : ClassFile → Bool} {name i : String} {names : List String}

/-- The search takes the first ancestor that will do. -/
theorem interfaceSearch_of_ancestors? (h : u.ancestors? name = some names) :
    u.interfaceSearch test name = some (names.find? (u.isInterfaceFor test)) := by
  unfold interfaceSearch
  rw [h]
  rfl

/-- An interface will do if it is an ancestor. -/
theorem hasInterface_iff (h : u.ancestors? name = some names) :
    u.HasInterface test name i ↔ i ∈ names ∧ u.isInterfaceFor test i = true := by
  unfold HasInterface isInterfaceFor
  rw [(ancestors?_nearer h).2]
  simp [Option.any_eq_true]

/-- The first one is the nearest. -/
theorem find?_interface_eq_some_iff (h : u.ancestors? name = some names) :
    names.find? (u.isInterfaceFor test) = some i ↔ u.HasInterface test name i ∧
      ∀ j, u.HasInterface test name j → j ≠ i → Nearer u.interfaces (u.line name) i j := by
  rw [find?_eq_some_iff_of_pairwise (fun _ _ => Nearer.asymm) (ancestors?_nearer h).1,
    ← and_assoc, ← hasInterface_iff h]
  simp only [hasInterface_iff h, and_imp]

-- None is found if there is none.
theorem find?_interface_eq_none_iff (h : u.ancestors? name = some names) :
    names.find? (u.isInterfaceFor test) = none ↔ ∀ i, ¬u.HasInterface test name i := by
  rw [List.find?_eq_none]
  simp only [hasInterface_iff h, not_and]

end Interfaces

/-- An interface among the ancestors of a class has a method for the objects of the class. -/
def Offers (u : Universe) (m : Member) (i : String) : Prop :=
  (∃ way, Way u.interfaces (u.line m.owner) way i) ∧
    ∃ c, u.class? i = some c ∧ c.isInterface = true ∧ implements m.signature c = true

/-- One type is a proper subtype of another. -/
def Refines (u : Universe) (sub sup : String) : Prop :=
  sub ≠ sup ∧ u.isSubtype sub sup = true

section Defaults

variable {m : Member} {names : List String}

/-- Whether a name is one of an interface that has the method. -/
def isDefaultOf (u : Universe) (m : Member) (i : String) : Bool :=
  (u.class? i).any fun c => c.isInterface && implements m.signature c

/-- Default methods are searched for in the same way. -/
theorem defaultSearch_of_ancestors? (h : u.ancestors? m.owner = some names) :
    u.defaultSearch m = some (names.find? (u.isDefaultOf m)) :=
  interfaceSearch_of_ancestors? h

-- So the nearest interface with a default wins.
theorem find?_default_eq_some_iff (h : u.ancestors? m.owner = some names) {i : String} :
    names.find? (u.isDefaultOf m) = some i ↔ u.Offers m i ∧ ∀ j, u.Offers m j → j ≠ i →
      Nearer u.interfaces (u.line m.owner) i j :=
  find?_interface_eq_some_iff h

-- And none is found if none has one.
theorem find?_default_eq_none_iff (h : u.ancestors? m.owner = some names) :
    names.find? (u.isDefaultOf m) = none ↔ ∀ i, ¬u.Offers m i :=
  find?_interface_eq_none_iff h

/-- Which default method a class inherits if its superclasses come to an end. It is the one of the
    interface with the first way to it, and there is one if any interface offers the method. So no
    interface overrides it exactly if in front of every interface whose method is overridden there
    is one more that offers the method. -/
theorem defaultSearch_most_specific_iff (hends : ¬ComesRound u.Extends m.owner) :
    ∃ answer, u.defaultSearch m = some answer ∧ (answer = none ↔ ∀ i, ¬u.Offers m i) ∧
      (∀ i, answer = some i ↔ u.Offers m i ∧ ∀ j, u.Offers m j → j ≠ i →
        Nearer u.interfaces (u.line m.owner) i j) ∧
      ((∀ i, answer = some i → ∀ j, u.Offers m j → ¬u.Refines j i) ↔
        ∀ i j, u.Offers m i → u.Offers m j → u.Refines j i →
          ∃ k, u.Offers m k ∧ Nearer u.interfaces (u.line m.owner) k i) := by
  rcases Option.isSome_iff_exists.mp (ancestors?_isSome_iff.mpr hends) with ⟨names, hnames⟩
  have hfound (i : String) := find?_default_eq_some_iff hnames (i := i)
  refine ⟨_, defaultSearch_of_ancestors? hnames, find?_default_eq_none_iff hnames, hfound,
    fun hspecific i j hi hj hji => ?_, fun hfront i hanswer j hj hji => ?_⟩
  · -- What is found is not overridden, so it is another interface, and it is nearer.
    cases hanswer : names.find? (u.isDefaultOf m) with
    | none => exact absurd hi ((find?_default_eq_none_iff hnames).mp hanswer i)
    | some k =>
        rcases (hfound k).mp hanswer with ⟨hk, hnearest⟩
        refine ⟨k, hk, hnearest i hi fun hik => ?_⟩
        exact hspecific k hanswer j hj (hik ▸ hji)
  · rcases (hfound i).mp hanswer with ⟨hi, hnearest⟩
    rcases hfront i j hi hj hji with ⟨k, hk, hki⟩
    by_cases hne : k = i
    · exact hki.asymm (hne ▸ hki)
    · exact hki.asymm (hnearest k hk hne)

end Defaults

namespace Diamond

/-- The method of the example. -/
def method : Method where
  access := ⟨1⟩
  name := "m"
  descriptor := "()V"
  body := some { maxStack := 0, maxLocals := 1, instructions := [.simple .voidReturn] }

/-- An interface that has the method. -/
def interface (name : String) (interfaces : List String) : ClassFile where
  access := ⟨1537⟩
  name := name
  interfaces := interfaces
  methods := [method]

/-- A class that names both interfaces. -/
def classFile : ClassFile where
  name := "demo/C"
  interfaces := ["demo/I", "demo/J"]

/-- The second interface of the class extends the first one. -/
def classes : Universe :=
  .ofClasses [classFile, interface "demo/I" [], interface "demo/J" ["demo/I"]]

def member : Member :=
  ⟨"demo/C", "m", "()V"⟩

/-- Its line leaves the universe at once. -/
theorem superChain?_classFile : classes.superChain? "demo/C" = some [objectClass] := by
  rw [superChain?, show classes.superclass? "demo/C" = some objectClass from rfl]
  dsimp only
  rw [superChain?_objectClass]
  rfl

theorem not_comesRound : ¬ComesRound classes.Extends "demo/C" :=
  superChain?_isSome_iff.mp (by rw [superChain?_classFile]; rfl)

/-- The first interface comes before the one that refines it. -/
theorem ancestors?_classFile :
    classes.ancestors? "demo/C" = some ["demo/C", objectClass, "demo/I", "demo/J"] := by
  have hnew : Trail.fresh (.ofList ["demo/C", objectClass]) ["demo/I", "demo/J"]
      = ["demo/I", "demo/J"] := fresh_eq_self (by decide) (by simp [objectClass])
  have hold (t : Trail) : Trail.fresh (t.add ["demo/I", "demo/J"]).seen ["demo/I"] = [] := by
    simp [Trail.fresh, Trail.contains_add]
  -- The second interface leads to the first, which has been seen.
  have hwalk : walk classes.interfaces ["demo/C", objectClass] ["demo/I", "demo/J"]
      = some ["demo/I", "demo/J"] := by
    unfold walk
    rw [Trail.extend_of_ne_nil _ (by decide), hnew]
    rw [show ["demo/I", "demo/J"].flatMap classes.interfaces = ["demo/I"] from rfl]
    rw [Trail.extend_of_ne_nil _ (by decide), hold, List.flatMap_nil, Trail.extend_nil]
    rfl
  rw [ancestors?_of_superChain? superChain?_classFile]
  exact congrArg (Option.map _) hwalk

/-- Each interface that declares the method offers it. -/
theorem offers_of_names {k : Nat} {i : String} (hi : classFile.interfaces[k]? = some i)
    (hclass : ∃ c, classes.class? i = some c ∧ c.isInterface = true ∧
      implements member.signature c = true) : classes.Offers member i := by
  have hline : classes.line member.owner = ["demo/C", objectClass] :=
    congrArg (fun chain : Option (List String) => "demo/C" :: chain.getD []) superChain?_classFile
  refine ⟨⟨[0] ++ [k], ?_⟩, hclass⟩
  rw [hline]
  exact .further (.first rfl) hi

-- And so does the second one.
theorem offers_second : classes.Offers member "demo/J" :=
  offers_of_names (k := 1) rfl ⟨_, rfl, rfl, rfl⟩

-- Which refines the first one.
theorem refines_second : classes.Refines "demo/J" "demo/I" := by
  refine ⟨by decide, ?_⟩
  have hreaches : classes.reaches "demo/J" "demo/I" = true :=
    reaches_iff.mpr ⟨[0] ++ [1], .further (.first rfl) rfl⟩
  unfold isSubtype isSubtypeWithin
  rw [if_neg (by decide)]
  exact hreaches

/-- The supertypes of a name come to an end. -/
def Ends (name : String) : Prop :=
  Acc (flip fun name link => link ∈ classes.supertypes name) name

/-- A class comes to an end if all of its links do. -/
theorem ends_of_supertypes {name : String} (links : List String)
    (h : classes.supertypes name = links) (hlinks : ∀ link ∈ links, Ends link) : Ends name := by
  refine ⟨_, fun link hlink => hlinks link ?_⟩
  rw [← h]
  exact hlink

-- So no way comes round.
theorem not_comesRound_supertypes :
    ¬ComesRound (fun name link => link ∈ classes.supertypes name) "demo/C" := by
  have hroot : Ends objectClass := ends_of_supertypes [] rfl (by simp)
  have hfirst : Ends "demo/I" := ends_of_supertypes [objectClass] rfl (by simpa using hroot)
  have hsecond : Ends "demo/J" :=
    ends_of_supertypes [objectClass, "demo/I"] rfl (by simpa using ⟨hroot, hfirst⟩)
  have hclass : Ends "demo/C" :=
    ends_of_supertypes [objectClass, "demo/I", "demo/J"] rfl
      (by simpa using ⟨hroot, hfirst, hsecond⟩)
  exact (acc_iff_not_comesRound classes.named.finite_toSet
    fun _ _ => mem_named_of_supertypes).mp hclass

end Diamond

/-- The class inherits one of the two methods. -/
theorem default_of_diamond :
    ¬ComesRound Diamond.classes.Extends Diamond.member.owner ∧
      ∃ answer, Diamond.classes.defaultSearch Diamond.member = some answer ∧
        (answer = none ↔ ∀ i, ¬Diamond.classes.Offers Diamond.member i) ∧
        (∀ i, answer = some i ↔ Diamond.classes.Offers Diamond.member i ∧
          ∀ j, Diamond.classes.Offers Diamond.member j → j ≠ i →
            Nearer Diamond.classes.interfaces (Diamond.classes.line Diamond.member.owner) i j) ∧
        ((∀ i, answer = some i → ∀ j, Diamond.classes.Offers Diamond.member j →
            ¬Diamond.classes.Refines j i) ↔
          ∀ i j, Diamond.classes.Offers Diamond.member i → Diamond.classes.Offers Diamond.member j →
            Diamond.classes.Refines j i → ∃ k, Diamond.classes.Offers Diamond.member k ∧
              Nearer Diamond.classes.interfaces (Diamond.classes.line Diamond.member.owner) k i) :=
  ⟨Diamond.not_comesRound, defaultSearch_most_specific_iff Diamond.not_comesRound⟩

/-- The method that the class inherits is the one that is overridden. No circle lies ahead of the
    class. -/
theorem default_overridden :
    ¬ComesRound (fun name link => link ∈ Diamond.classes.supertypes name) "demo/C" ∧
      Diamond.classes.defaultSearch Diamond.member = some (some "demo/I") ∧
      Diamond.classes.Offers Diamond.member "demo/J" ∧
      Diamond.classes.Refines "demo/J" "demo/I" := by
  refine ⟨Diamond.not_comesRound_supertypes, ?_, Diamond.offers_second, Diamond.refines_second⟩
  rw [defaultSearch_of_ancestors? (m := Diamond.member) Diamond.ancestors?_classFile]
  rfl

end Universe

end JvmFold
