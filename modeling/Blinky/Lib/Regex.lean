import Mathlib.Data.List.Infix

/-!
# Backtracking regular expressions

`run` lists every way an expression can match at the front of an input, in the
order a backtracking matcher tries them: a lazy star gives the shortest piece
first, a greedy one the longest, an option tries its body before nothing.
`search` is the leftmost match, first in that order.

Two views of the same matcher: `Lang` is the language, blind to order, and
settles whether there is a match at all (`search_isSome_iff`); `First` is the
match tried first, and its rules compute what the groups capture.
-/

namespace Blinky
set_option autoImplicit false

/-- Stars range over character classes, as in every pattern used here. -/
inductive Regex (α : Type) where
  | lit (s : List α)
  | cls (p : α → Bool)
  | star (lazy : Bool) (p : α → Bool)
  | seq (r s : Regex α)
  | opt (r : Regex α)
  | group (n : Nat) (r : Regex α)

/-- One way to match: what was consumed, what is left, what the groups hold. -/
structure Match (α : Type) where
  taken : List α
  rest : List α
  groups : List (Nat × List α)
deriving DecidableEq

namespace Regex

variable {α : Type} [DecidableEq α]

/-- Every split of the input after a run of `p`, in order of preference. -/
def starRun {α : Type} (lazy : Bool) (p : α → Bool) : List α → List (List α × List α)
  | [] => [([], [])]
  | c :: t =>
    let more := if p c then (starRun lazy p t).map fun x => (c :: x.1, x.2) else []
    if lazy then ([], c :: t) :: more else more ++ [([], c :: t)]

def run : Regex α → List α → List (Match α)
  | .lit s, t => if s.isPrefixOf t then [⟨s, t.drop s.length, []⟩] else []
  | .cls _, [] => []
  | .cls p, c :: t => if p c then [⟨[c], t, []⟩] else []
  | .star lazy p, t => (starRun lazy p t).map fun x => ⟨x.1, x.2, []⟩
  | .seq r s, t => (r.run t).flatMap fun m => (s.run m.rest).map fun m' =>
      ⟨m.taken ++ m'.taken, m'.rest, m.groups ++ m'.groups⟩
  | .opt r, t => r.run t ++ [⟨[], t, []⟩]
  | .group n r, t => (r.run t).map fun m => { m with groups := (n, m.taken) :: m.groups }

/-- The leftmost match, first in backtracking order. -/
def search (r : Regex α) : List α → Option (Match α)
  | [] => (r.run []).head?
  | c :: t => (r.run (c :: t)).head?.or (r.search t)

/-- One or more characters of a class, as many as possible. -/
def plus {α : Type} (p : α → Bool) : Regex α := .seq (.cls p) (.star false p)

/-! ## The language -/

/-- What an expression can consume. -/
def Lang {α : Type} : Regex α → List α → Prop
  | .lit s, w => w = s
  | .cls p, w => ∃ c, w = [c] ∧ p c = true
  | .star _ p, w => ∀ c ∈ w, p c = true
  | .seq r s, w => ∃ u v, w = u ++ v ∧ Lang r u ∧ Lang s v
  | .opt r, w => Lang r w ∨ w = []
  | .group _ r, w => Lang r w

omit [DecidableEq α] in
theorem mem_starRun {p : α → Bool} {lazy : Bool} {t u v : List α} :
    (u, v) ∈ starRun lazy p t ↔ t = u ++ v ∧ ∀ c ∈ u, p c = true := by
  induction t generalizing u with
  | nil =>
    simp only [starRun, List.mem_singleton, Prod.mk.injEq, List.nil_eq, List.append_eq_nil_iff]
    constructor
    · rintro ⟨rfl, rfl⟩
      exact ⟨⟨rfl, rfl⟩, by simp⟩
    · exact fun h => h.1
  | cons c t ih =>
    have order : (u, v) ∈ starRun lazy p (c :: t) ↔ (u, v) = ([], c :: t) ∨
        (u, v) ∈ (if p c then (starRun lazy p t).map (fun x => (c :: x.1, x.2)) else []) := by
      rw [starRun]
      cases lazy
      · rw [if_neg Bool.false_ne_true, List.mem_append, List.mem_singleton, or_comm]
      · rw [if_pos rfl, List.mem_cons]
    rw [order]
    cases u with
    | nil =>
      constructor
      · rintro (here | more)
        · cases here
          exact ⟨rfl, by simp⟩
        · split at more
          · obtain ⟨x, -, bad⟩ := List.mem_map.mp more
            cases bad
          · cases more
      · rintro ⟨whole, -⟩
        rw [whole]
        exact .inl rfl
    | cons d u =>
      split
      · rename_i yes
        simp only [Prod.mk.injEq, List.cons_ne_nil, false_and, false_or, List.mem_map,
          List.cons.injEq, Prod.exists, List.cons_append, List.mem_cons, forall_eq_or_imp]
        constructor
        · rintro ⟨a, b, member, ⟨rfl, rfl⟩, rfl⟩
          obtain ⟨rfl, all⟩ := ih.mp member
          exact ⟨⟨rfl, rfl⟩, yes, all⟩
        · rintro ⟨⟨rfl, rest⟩, -, all⟩
          exact ⟨u, v, ih.mpr ⟨rest, all⟩, ⟨rfl, rfl⟩, rfl⟩
      · rename_i no
        constructor
        · rintro (bad | bad) <;> cases bad
        · rintro ⟨split, all⟩
          obtain ⟨rfl, -⟩ := List.cons.inj split
          exact absurd (all c (by simp)) no

/-- The matcher consumes words of the language, and nothing but the input. -/
theorem run_sound {r : Regex α} {t : List α} {m : Match α} (h : m ∈ r.run t) :
    t = m.taken ++ m.rest ∧ r.Lang m.taken := by
  induction r generalizing t m with
  | lit s =>
    simp only [run] at h
    split at h
    · rename_i pre
      obtain ⟨u, rfl⟩ := List.isPrefixOf_iff_prefix.mp pre
      rw [List.mem_singleton.mp h]
      exact ⟨by simp, rfl⟩
    · cases h
  | cls p =>
    cases t with
    | nil => cases h
    | cons c t =>
      simp only [run] at h
      split at h
      · rename_i yes
        rw [List.mem_singleton.mp h]
        exact ⟨rfl, c, rfl, yes⟩
      · cases h
  | star lazy p =>
    obtain ⟨⟨u, v⟩, member, rfl⟩ := List.mem_map.mp h
    exact mem_starRun.mp member
  | seq r s ihr ihs =>
    obtain ⟨m₁, first, second⟩ := List.mem_flatMap.mp h
    obtain ⟨m₂, member, rfl⟩ := List.mem_map.mp second
    obtain ⟨split, lang⟩ := ihr first
    obtain ⟨split', lang'⟩ := ihs member
    exact ⟨by rw [split, split', List.append_assoc], _, _, rfl, lang, lang'⟩
  | opt r ih =>
    rcases List.mem_append.mp h with body | empty
    · exact ⟨(ih body).1, .inl (ih body).2⟩
    · rw [List.mem_singleton.mp empty]
      exact ⟨rfl, .inr rfl⟩
  | group n r ih =>
    obtain ⟨m', member, rfl⟩ := List.mem_map.mp h
    have body := ih member
    exact body

/-- Every word of the language at the front of the input is tried. -/
theorem run_complete {r : Regex α} {w : List α} (h : r.Lang w) (v : List α) :
    ∃ m ∈ r.run (w ++ v), m.taken = w ∧ m.rest = v := by
  induction r generalizing w v with
  | lit s =>
    obtain rfl : w = s := h
    refine ⟨⟨w, v, []⟩, ?_, rfl, rfl⟩
    simp [run]
  | cls p =>
    obtain ⟨c, rfl, yes⟩ := h
    exact ⟨⟨[c], v, []⟩, by simp [run, yes], rfl, rfl⟩
  | star lazy p =>
    exact ⟨⟨w, v, []⟩, List.mem_map.mpr ⟨(w, v), mem_starRun.mpr ⟨rfl, h⟩, rfl⟩, rfl, rfl⟩
  | seq r s ihr ihs =>
    obtain ⟨a, b, rfl, left, right⟩ := h
    obtain ⟨m, member, rfl, rest⟩ := ihr left (b ++ v)
    obtain ⟨m', member', rfl, rest'⟩ := ihs right v
    refine ⟨⟨m.taken ++ m'.taken, m'.rest, m.groups ++ m'.groups⟩, ?_, rfl, rest'⟩
    rw [List.append_assoc]
    refine List.mem_flatMap.mpr ⟨m, member, ?_⟩
    rw [rest]
    exact List.mem_map.mpr ⟨m', member', rfl⟩
  | opt r ih =>
    rcases h with body | rfl
    · obtain ⟨m, member, taken, rest⟩ := ih body v
      exact ⟨m, List.mem_append_left _ member, taken, rest⟩
    · exact ⟨⟨[], v, []⟩, by simp [run], rfl, rfl⟩
  | group n r ih =>
    obtain ⟨m, member, taken, rest⟩ := ih h v
    exact ⟨_, List.mem_map.mpr ⟨m, member, rfl⟩, taken, rest⟩

theorem run_head_isSome_iff {r : Regex α} {t : List α} :
    (r.run t).head?.isSome ↔ ∃ w v, t = w ++ v ∧ r.Lang w := by
  rw [List.isSome_head?, ne_eq, ← List.length_eq_zero_iff, ← ne_eq, ← Nat.pos_iff_ne_zero,
    List.length_pos_iff_exists_mem]
  constructor
  · rintro ⟨m, member⟩
    exact ⟨m.taken, m.rest, run_sound member⟩
  · rintro ⟨w, v, rfl, lang⟩
    obtain ⟨m, member, -⟩ := run_complete lang v
    exact ⟨m, member⟩

/-- There is a match exactly when some piece of the input is in the language. -/
theorem search_isSome_iff {r : Regex α} {t : List α} :
    (r.search t).isSome ↔ ∃ u w v, t = u ++ w ++ v ∧ r.Lang w := by
  induction t with
  | nil =>
    rw [search, run_head_isSome_iff]
    constructor
    · rintro ⟨w, v, split, lang⟩
      exact ⟨[], w, v, split, lang⟩
    · rintro ⟨u, w, v, split, lang⟩
      obtain ⟨-, rfl, rfl⟩ : u = [] ∧ w = [] ∧ v = [] := by simpa using split.symm
      exact ⟨[], [], rfl, lang⟩
  | cons c t ih =>
    rw [search, Option.isSome_or, Bool.or_eq_true, run_head_isSome_iff, ih]
    constructor
    · rintro (⟨w, v, split, lang⟩ | ⟨u, w, v, rfl, lang⟩)
      · exact ⟨[], w, v, split, lang⟩
      · exact ⟨c :: u, w, v, rfl, lang⟩
    · rintro ⟨u, w, v, split, lang⟩
      cases u with
      | nil => exact .inl ⟨w, v, split, lang⟩
      | cons d u => exact .inr ⟨u, w, v, (List.cons.inj split).2, lang⟩

/-! ## The match tried first -/

/-- `m` is the match tried first at the front of `t`. -/
def First (r : Regex α) (t : List α) (m : Match α) : Prop := (r.run t).head? = some m

theorem First.search {r : Regex α} {t : List α} {m : Match α} (h : r.First t m) :
    r.search t = some m := by
  cases t with
  | nil => exact h
  | cons c t =>
    have front : (r.run (c :: t)).head? = some m := h
    rw [Regex.search, front, Option.some_or]

/-- A list of alternatives whose first successful one is known. -/
theorem head_flatMap {β γ : Type} {f : β → List γ} {pre post : List β} {a : β} {b : γ}
    (fail : ∀ x ∈ pre, f x = []) (found : (f a).head? = some b) :
    ((pre ++ a :: post).flatMap f).head? = some b := by
  rw [List.flatMap_append, List.flatMap_cons]
  have none : pre.flatMap f = [] := List.flatMap_eq_nil_iff.mpr fail
  rw [none, List.nil_append, List.head?_append, found, Option.some_or]

theorem run_lit (s t : List α) : (Regex.lit s).run (s ++ t) = [⟨s, t, []⟩] := by
  simp [run]

theorem run_lit_nil {s t : List α} (h : ¬ s <+: t) : (Regex.lit s).run t = [] := by
  rw [run, if_neg (fun pre => h (List.isPrefixOf_iff_prefix.mp pre))]

theorem run_seq_nil {r : Regex α} {t : List α} (h : r.run t = []) (s : Regex α) :
    (Regex.seq r s).run t = [] := by
  rw [run, h, List.flatMap_nil]

/-- A literal cannot start inside a text without its first character. -/
theorem run_seq_lit_nil {c : α} {s u : List α} (head : s.head? = some c) (absent : c ∉ u)
    (r : Regex α) (t : List α) :
    ∀ a b, u = a ++ b → b ≠ [] → (Regex.seq (.lit s) r).run (b ++ t) = [] := by
  intro a b whole ne
  obtain ⟨s', rfl⟩ := List.head?_eq_some_iff.mp head
  apply run_seq_nil
  apply run_lit_nil
  intro pre
  cases b with
  | nil => exact ne rfl
  | cons d b =>
    have here : c = d := (List.cons_prefix_cons.mp pre).1
    exact absent (by rw [whole, here]; simp)

/-- An option that cannot match is as good as absent. -/
theorem run_seq_opt_nil {r s : Regex α} {t : List α} (left : r.run t = []) (right : s.run t = []) :
    (Regex.seq (.opt r) s).run t = [] := by
  rw [run, run, left, List.nil_append, List.flatMap_singleton, right, List.map_nil]

theorem First.lit (s t : List α) : (Regex.lit s).First (s ++ t) ⟨s, t, []⟩ := by
  rw [First, run_lit, List.head?_cons]

theorem First.cls {p : α → Bool} {c : α} (yes : p c = true) (t : List α) :
    (Regex.cls p).First (c :: t) ⟨[c], t, []⟩ := by
  rw [First, run, if_pos yes, List.head?_cons]

/-- If the first match of `r` leads on to a match of `s`, the sequence takes both. -/
theorem First.seq {r s : Regex α} {t : List α} {m m' : Match α} (left : r.First t m)
    (right : s.First m.rest m') :
    (Regex.seq r s).First t ⟨m.taken ++ m'.taken, m'.rest, m.groups ++ m'.groups⟩ := by
  obtain ⟨post, all⟩ : ∃ post, r.run t = m :: post := List.head?_eq_some_iff.mp left
  have second : (s.run m.rest).head? = some m' := right
  rw [First, run, all, List.flatMap_cons, List.head?_append, List.head?_map, second, Option.map_some,
    Option.some_or]

/-- An option whose body cannot match takes nothing. -/
theorem First.skip {r : Regex α} {t : List α} (fail : r.run t = []) :
    (Regex.opt r).First t ⟨[], t, []⟩ := by
  rw [First, run, fail, List.nil_append, List.head?_cons]

/-- A greedy star takes the whole run of its class. -/
theorem First.greedy {p : α → Bool} {u t : List α} (all : ∀ c ∈ u, p c = true)
    (stop : ∀ c, t.head? = some c → p c = false) :
    (Regex.star false p).First (u ++ t) ⟨u, t, []⟩ := by
  have order : (starRun false p (u ++ t)).head? = some (u, t) := by
    induction u with
    | nil =>
      cases t with
      | nil => rfl
      | cons c t => simp [starRun, stop c rfl]
    | cons c u ih =>
      have rest := ih fun x hx => all x (by simp [hx])
      simp [starRun, all c (by simp), rest]
  rw [First, run, List.head?_map, order]
  rfl

omit [DecidableEq α] in
/-- A lazy star tries every shorter piece before `u`. -/
theorem starRun_lazy {p : α → Bool} {u : List α} (all : ∀ c ∈ u, p c = true) (t : List α) :
    ∃ pre post, starRun true p (u ++ t) = pre ++ (u, t) :: post ∧
      ∀ x ∈ pre, ∃ b, u = x.1 ++ b ∧ b ≠ [] ∧ x.2 = b ++ t := by
  induction u with
  | nil =>
    cases t with
    | nil => exact ⟨[], [], rfl, by simp⟩
    | cons c t => exact ⟨[], _, rfl, by simp⟩
  | cons c u ih =>
    obtain ⟨pre, post, order, shorter⟩ := ih fun x hx => all x (by simp [hx])
    refine ⟨([], c :: u ++ t) :: pre.map (fun x => (c :: x.1, x.2)),
      post.map (fun x => (c :: x.1, x.2)), ?_, ?_⟩
    · simp [starRun, all c (by simp), order]
    · intro x member
      rcases List.mem_cons.mp member with rfl | deeper
      · exact ⟨c :: u, rfl, by simp, rfl⟩
      · obtain ⟨y, hy, rfl⟩ := List.mem_map.mp deeper
        obtain ⟨b, whole, ne, rest⟩ := shorter y hy
        exact ⟨b, by rw [whole]; rfl, ne, rest⟩

/-- A lazy star before `s` stops at the first place where `s` matches. -/
theorem First.lazy {p : α → Bool} {s : Regex α} {u t : List α} {m : Match α}
    (all : ∀ c ∈ u, p c = true) (fail : ∀ a b, u = a ++ b → b ≠ [] → s.run (b ++ t) = [])
    (found : s.First t m) :
    (Regex.seq (.star true p) s).First (u ++ t) ⟨u ++ m.taken, m.rest, m.groups⟩ := by
  obtain ⟨pre, post, order, shorter⟩ := starRun_lazy all t
  rw [First, run, run, order, List.map_append, List.map_cons]
  refine head_flatMap ?_ ?_
  · intro x member
    obtain ⟨y, hy, rfl⟩ := List.mem_map.mp member
    obtain ⟨b, whole, ne, rest⟩ := shorter y hy
    rw [rest, fail _ b whole ne, List.map_nil]
  · rw [List.head?_map, show (s.run t).head? = some m from found]
    rfl

/-- The same with the star in a group, which then holds everything up to there. -/
theorem First.lazyGroup {p : α → Bool} {s : Regex α} {u t : List α} {m : Match α} (n : Nat)
    (all : ∀ c ∈ u, p c = true) (fail : ∀ a b, u = a ++ b → b ≠ [] → s.run (b ++ t) = [])
    (found : s.First t m) :
    (Regex.seq (.group n (.star true p)) s).First (u ++ t)
      ⟨u ++ m.taken, m.rest, (n, u) :: m.groups⟩ := by
  obtain ⟨pre, post, order, shorter⟩ := starRun_lazy all t
  rw [First, run, run, run, order, List.map_append, List.map_cons, List.map_append, List.map_cons]
  refine head_flatMap ?_ ?_
  · intro x member
    obtain ⟨z, hz, rfl⟩ := List.mem_map.mp member
    obtain ⟨y, hy, rfl⟩ := List.mem_map.mp hz
    obtain ⟨b, whole, ne, rest⟩ := shorter y hy
    dsimp only
    rw [rest, fail _ b whole ne, List.map_nil]
  · rw [List.head?_map, show (s.run t).head? = some m from found]
    rfl

end Regex

end Blinky
