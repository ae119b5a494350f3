import AutonomousEngine.Basis.Dict
import AutonomousEngine.Basis.Ranks

/-!
# The target book

`construct_book` takes the best symbols of a ranking and compares them with what is held.
Every symbol that is involved is in one of four buckets: it is bought, sold, kept, or its
sale is blocked (`buch`).  When the proposal is carried out, the next one from the same
ranking buys nothing and is about nothing but the blocked symbols (`buch_fixpunkt`).

The gate for sales may count the calls; it is given its state and gives the next one.
Scores are of any linear order.
-/

namespace RoundTable

open Basis

/-- `BookProposal`. -/
structure BookProposal (K : Type) where
  asOf : String
  rankingSource : String
  universeSize : ℕ
  maxPositions : ℤ
  targetBook : List String
  ranking : List (String × K)
  buys : List String
  sells : List String
  holds : List String
  blockedSells : List (String × String)
  reasoning : String

section

variable {K : Type} [LinearOrder K] {σ : Type}

/-- The key of the ranking: the score downwards, and the symbol. -/
def rankingKey (e : String × K) : Kᵒᵈ ×ₗ String := toLex (OrderDual.toDual e.2, e.1)

/-- The entries of a ranking in their order. -/
def fullRanking (ranking : Dict String K) : List (String × K) :=
  ranking.entries.insertionSort fun e e' => rankingKey e ≤ rankingKey e'

def buildTargetBook (ranking : Dict String K) (maxPositions : ℤ) : List String :=
  ((fullRanking ranking).take maxPositions.toNat).map Prod.fst

/-- `list(dict.fromkeys(held))`. -/
def heldSyms (held : List String) : List String :=
  held.foldl (fun out s => if s ∈ out then out else out ++ [s]) []

/-- The loop over the symbols that are held: those to sell, and those whose sale the gate
blocks, with its reason. -/
def sellLoop (canSell : Option (σ → String → σ × Bool × String)) (target : List String) :
    σ → List String → σ × List String × List (String × String)
  | gate, [] => (gate, [], [])
  | gate, sym :: syms =>
      if sym ∈ target then sellLoop canSell target gate syms
      else
        match canSell with
        | none =>
            let rest := sellLoop canSell target gate syms
            (rest.1, sym :: rest.2.1, rest.2.2)
        | some ask =>
            let answer := ask gate sym
            let rest := sellLoop canSell target answer.1 syms
            if answer.2.1 then (rest.1, sym :: rest.2.1, rest.2.2)
            else (rest.1, rest.2.1, (sym, answer.2.2) :: rest.2.2)

/-- `construct_book`; `listRepr` is how a list of names is printed. -/
def constructBook (listRepr : List String → String) (ranking : Dict String K)
    (held : List String) (maxPositions : ℤ)
    (canSell : Option (σ → String → σ × Bool × String)) (gate : σ) (asOf : String)
    (rankingSource : String) : σ × BookProposal K :=
  let held := heldSyms held
  let target := buildTargetBook ranking maxPositions
  let holds := held.filter fun s => decide (s ∈ target)
  let buys := target.filter fun s => decide (s ∉ held)
  let loop := sellLoop canSell target gate held
  let full := fullRanking ranking
  (loop.1,
    { asOf := asOf
      rankingSource := rankingSource
      universeSize := full.length
      maxPositions := maxPositions
      targetBook := target
      ranking := full
      buys := buys
      sells := loop.2.1
      holds := holds
      blockedSells := loop.2.2
      reasoning := s!"Book-Constructor (#2401 B1): top-{target.length} of {full.length} " ++
        s!"ranked names ({rankingSource}) -> target book {listRepr target}; " ++
        s!"diff vs {held.length} held: {buys.length} buys, {loop.2.1.length} sells, " ++
        s!"{holds.length} holds, {loop.2.2.length} sells blocked by anti-churn/min-hold." })

end

/-! ## The target -/

section

variable {K : Type} [LinearOrder K] {σ : Type} {ranking ranking' : Dict String K}
  {held syms target : List String} {s : String} {gate : σ}
  {canSell : Option (σ → String → σ × Bool × String)}

omit [LinearOrder K] in
theorem nodup_rankingKey (ranking : Dict String K) : (ranking.entries.map rankingKey).Nodup := by
  refine List.Nodup.of_map (fun k : Kᵒᵈ ×ₗ String => (ofLex k).2) ?_
  rw [List.map_map]
  exact ranking.nodup

theorem nodup_buildTargetBook (ranking : Dict String K) (n : ℤ) :
    (buildTargetBook ranking n).Nodup := by
  refine List.Nodup.sublist ((List.take_sublist _ _).map Prod.fst) ?_
  exact ((List.perm_insertionSort _ _).map Prod.fst).nodup_iff.mpr ranking.nodup

theorem mem_buildTargetBook {n : ℤ} : s ∈ buildTargetBook ranking n ↔
    ∃ x, ranking.get? s = some x ∧
      ranking.entries.countP (fun e => decide (rankingKey e < rankingKey (s, x))) < n.toNat := by
  rw [buildTargetBook, List.mem_map]
  constructor
  · rintro ⟨⟨s', x⟩, hmem, rfl⟩
    obtain ⟨hentry, hcount⟩ := (mem_take_insertionSort (nodup_rankingKey ranking)).mp hmem
    exact ⟨x, Dict.mem_entries_iff.mp hentry, hcount⟩
  · rintro ⟨x, hget, hcount⟩
    exact ⟨(s, x), (mem_take_insertionSort (nodup_rankingKey ranking)).mpr
      ⟨Dict.mem_entries_iff.mpr hget, hcount⟩, rfl⟩

/-! ## The buckets -/

theorem heldSyms_spec (held : List String) :
    (heldSyms held).Nodup ∧ ∀ s, s ∈ heldSyms held ↔ s ∈ held := by
  have hrun : ∀ out : List String, out.Nodup →
      (held.foldl (fun out s => if s ∈ out then out else out ++ [s]) out).Nodup ∧
        ∀ s, s ∈ held.foldl (fun out s => if s ∈ out then out else out ++ [s]) out ↔
          s ∈ out ∨ s ∈ held := by
    induction held with
    | nil => exact fun out hout => ⟨hout, by simp⟩
    | cons h held ih =>
        intro out hout
        rw [List.foldl_cons]
        split
        next hmem =>
          refine (ih out hout).imp id fun hiff s => ?_
          rw [hiff s, List.mem_cons, ← or_assoc]
          refine or_congr_left (or_iff_left_of_imp ?_).symm
          rintro rfl
          exact hmem
        next hmem =>
          have hnodup : (out ++ [h]).Nodup := by
            rw [← List.concat_eq_append]
            exact hout.concat hmem
          refine (ih _ hnodup).imp id fun hiff s => ?_
          rw [hiff s, List.mem_append, List.mem_singleton, List.mem_cons, or_assoc]
  obtain ⟨hnodup, hmem⟩ := hrun [] List.nodup_nil
  exact ⟨hnodup, fun s => by rw [heldSyms, hmem s]; simp⟩

theorem sellLoop_perm (syms : List String) (gate : σ) :
    ((sellLoop canSell target gate syms).2.1 ++
      (sellLoop canSell target gate syms).2.2.map Prod.fst).Perm
        (syms.filter fun s => decide (s ∉ target)) := by
  induction syms generalizing gate with
  | nil => exact List.Perm.refl _
  | cons sym syms ih =>
      simp only [sellLoop]
      split
      next hmem =>
        rw [List.filter_cons_of_neg (by simpa using hmem)]
        exact ih gate
      next hmem =>
        rw [List.filter_cons_of_pos (by simpa using hmem)]
        split
        next => exact (ih gate).cons sym
        next ask =>
          split
          next => exact (ih _).cons sym
          next => exact List.perm_middle.trans ((ih _).cons sym)

/-- What is held is kept, sold or blocked, and what is kept or bought is the book. -/
theorem constructBook_buckets (listRepr : List String → String) (ranking : Dict String K)
    (held : List String) (maxPositions : ℤ)
    (canSell : Option (σ → String → σ × Bool × String)) (gate : σ) (asOf source : String) :
    let p := (constructBook listRepr ranking held maxPositions canSell gate asOf source).2
    (p.holds ++ (p.sells ++ p.blockedSells.map Prod.fst)).Perm (heldSyms held) ∧
      (p.holds ++ p.buys).Perm p.targetBook := by
  obtain ⟨hnodup, -⟩ := heldSyms_spec held
  constructor
  · have hsplit := List.filter_append_perm
      (fun s => decide (s ∈ buildTargetBook ranking maxPositions)) (heldSyms held)
    have hnot : (fun s => !decide (s ∈ buildTargetBook ranking maxPositions)) =
        fun s => decide (s ∉ buildTargetBook ranking maxPositions) := by
      funext s
      simp
    rw [hnot] at hsplit
    exact (List.Perm.append_left _ (sellLoop_perm (heldSyms held) gate)).trans hsplit
  · have htarget := nodup_buildTargetBook ranking maxPositions
    refine (List.perm_ext_iff_of_nodup ?_ htarget).mpr fun s => ?_
    · refine List.nodup_append.mpr ⟨hnodup.filter _, htarget.filter _, ?_⟩
      intro s hs t ht heq
      subst heq
      have hheld := (List.mem_filter.mp hs).1
      have hout : s ∉ heldSyms held := by simpa using (List.mem_filter.mp ht).2
      exact hout hheld
    · simp only [constructBook, List.mem_append, List.mem_filter, decide_eq_true_eq]
      constructor
      · rintro (⟨-, hs⟩ | ⟨hs, -⟩)
        · exact hs
        · exact hs
      · intro hs
        by_cases hheld : s ∈ heldSyms held
        · exact .inl ⟨hheld, hs⟩
        · exact .inr ⟨hs, hheld⟩

/-- A proposal: the book has the symbols with fewer than `maxPositions` ranked before them,
every symbol that is held or in the book is in exactly one bucket, and what is held and
stays is not traded. -/
theorem buch (listRepr : List String → String) (ranking : Dict String K) (held : List String)
    (maxPositions : ℤ) (canSell : Option (σ → String → σ × Bool × String)) (gate : σ)
    (asOf source : String) :
    let p := (constructBook listRepr ranking held maxPositions canSell gate asOf source).2
    (∀ s, s ∈ p.targetBook ↔ ∃ x, ranking.get? s = some x ∧ ranking.entries.countP
        (fun e => decide (rankingKey e < rankingKey (s, x))) < maxPositions.toNat) ∧
      (p.buys ++ (p.holds ++ (p.sells ++ p.blockedSells.map Prod.fst))).Nodup ∧
      (∀ s, s ∈ held ↔ s ∈ p.holds ∨ s ∈ p.sells ∨ s ∈ p.blockedSells.map Prod.fst) ∧
      (∀ s, s ∈ p.targetBook ↔ s ∈ p.holds ∨ s ∈ p.buys) := by
  intro p
  obtain ⟨hheld, htarget⟩ := constructBook_buckets listRepr ranking held maxPositions canSell gate
    asOf source
  obtain ⟨hnodup, hmem⟩ := heldSyms_spec held
  refine ⟨fun s => mem_buildTargetBook, ?_, ?_, ?_⟩
  · refine List.nodup_append.mpr ⟨?_, hheld.nodup_iff.mpr hnodup, ?_⟩
    · exact (nodup_buildTargetBook ranking maxPositions).filter _
    · intro s hs t ht heq
      subst heq
      have hout : s ∉ heldSyms held := by simpa using (List.mem_filter.mp hs).2
      exact hout (hheld.subset ht)
  · intro s
    rw [← hmem s, ← hheld.mem_iff, List.mem_append, List.mem_append]
  · intro s
    rw [← htarget.mem_iff, List.mem_append]

/-- When a proposal is carried out, the next one from the same ranking buys nothing, keeps
the book, and is only about the symbols whose sale was blocked. -/
theorem buch_fixpunkt (listRepr : List String → String) (ranking : Dict String K)
    (held held' : List String) (maxPositions : ℤ)
    (canSell canSell' : Option (σ → String → σ × Bool × String)) (gate gate' : σ)
    (asOf asOf' source source' : String)
    (hheld : ∀ s, s ∈ held' ↔ s ∈ (constructBook listRepr ranking held maxPositions canSell gate
        asOf source).2.targetBook ∨ s ∈ (constructBook listRepr ranking held maxPositions canSell
        gate asOf source).2.blockedSells.map Prod.fst) :
    let p := (constructBook listRepr ranking held maxPositions canSell gate asOf source).2
    let p' := (constructBook listRepr ranking held' maxPositions canSell' gate' asOf' source').2
    p'.buys = [] ∧ p'.holds.Perm p.targetBook ∧
      ∀ s, s ∈ p'.sells ∨ s ∈ p'.blockedSells.map Prod.fst ↔ s ∈ p.blockedSells.map Prod.fst := by
  intro p p'
  obtain ⟨hpart, hbook⟩ := constructBook_buckets listRepr ranking held' maxPositions canSell' gate'
    asOf' source'
  obtain ⟨hnodup, hmem⟩ := heldSyms_spec held'
  have hbuys : p'.buys = [] := by
    show (p.targetBook.filter fun s => decide (s ∉ heldSyms held')) = []
    rw [List.filter_eq_nil_iff]
    intro s hs
    have hs' : s ∈ heldSyms held' := (hmem s).mpr ((hheld s).mpr (.inl hs))
    simpa using hs'
  refine ⟨hbuys, ?_, fun s => ?_⟩
  · rwa [show (constructBook listRepr ranking held' maxPositions canSell' gate' asOf'
      source').2.buys = [] from hbuys, List.append_nil] at hbook
  · have hsell := (@sellLoop_perm _ p.targetBook canSell' (heldSyms held') gate').mem_iff (a := s)
    rw [List.mem_append, List.mem_filter, decide_eq_true_eq, hmem, hheld] at hsell
    refine hsell.trans ⟨fun h => h.1.resolve_left h.2, fun h => ⟨.inr h, fun htarget => ?_⟩⟩
    -- a blocked symbol was not in the book
    have hblocked := (@sellLoop_perm _ p.targetBook canSell (heldSyms held) gate).subset
      (List.mem_append_right _ h)
    simp only [List.mem_filter, decide_eq_true_eq] at hblocked
    exact hblocked.2 htarget

/-- Of three ranked symbols two make the book; the sales of the two that are held are
blocked. -/
theorem buch_fixpunkt_drei :
    (constructBook (fun _ => "") ⟨[("A", (3 : ℤ)), ("B", 1), ("C", 2)], by decide⟩
      ["D", "A", "C", "B"] 2 (none : Option (Unit → String → Unit × Bool × String)) () "" "").2.buys
        = [] := by
  refine (buch_fixpunkt (fun _ => "") ⟨[("A", (3 : ℤ)), ("B", 1), ("C", 2)], by decide⟩ ["D", "B"]
    ["D", "A", "C", "B"] 2 (some fun _ _ => ((), false, "min-hold")) none () () "" "" "" ""
    fun s => ?_).1
  have htarget : (constructBook (fun _ => "") ⟨[("A", (3 : ℤ)), ("B", 1), ("C", 2)], by decide⟩
      ["D", "B"] 2 (some fun _ _ => ((), false, "min-hold")) () "" "").2.targetBook =
        ["A", "C"] := by
    decide +kernel
  have hblocked : (constructBook (fun _ => "") ⟨[("A", (3 : ℤ)), ("B", 1), ("C", 2)], by decide⟩
      ["D", "B"] 2 (some fun _ _ => ((), false, "min-hold")) () "" "").2.blockedSells.map Prod.fst =
        ["D", "B"] := by
    decide +kernel
  rw [htarget, hblocked]
  simp only [List.mem_cons, List.not_mem_nil, or_false]
  tauto

end

end RoundTable
