import AutonomousEngine.Basis.JsonDict
import AutonomousEngine.Basis.Text

/-!
# Files with a JSON object a line

A reader takes the text of a file apart at the ends of its lines, of which there
are several kinds.  What `json.dumps` writes is printable ASCII, so it never holds
one, and lines that were written are found again whatever follows them
(`splitLines_unlines`).
-/

namespace Basis

/-! ## Lines -/

/-- The lines of a text without their ends.  A carriage return and a newline behind
it are one end, and `cr` is whether the text stands behind a carriage return. -/
def splitLines (isEnd : Char → Bool) : Bool → List Char → List (List Char)
  | _, [] => []
  | cr, c :: cs =>
      if cr && c == '\n' then splitLines isEnd false cs
      else if isEnd c then [] :: splitLines isEnd (c == '\r') cs
      else
        match splitLines isEnd false cs with
        | [] => [[c]]
        | l :: ls => (c :: l) :: ls

/-- The ends of lines in a file that is opened as text. -/
def isNewline (c : Char) : Bool := c == '\n' || c == '\r'

/-- The ends of lines of `str.splitlines`. -/
def isLineBreak (c : Char) : Bool :=
  let n := c.toNat
  (10 ≤ n && n ≤ 13) || (28 ≤ n && n ≤ 30) || n == 0x85 || n == 0x2028 || n == 0x2029

/-- Lines with a newline behind each. -/
def unlines (ls : List (List Char)) : List Char := ls.flatMap (· ++ ['\n'])

@[simp] theorem unlines_nil : unlines [] = [] := rfl

@[simp] theorem unlines_cons (l : List Char) (ls : List (List Char)) :
    unlines (l :: ls) = l ++ '\n' :: unlines ls := by
  simp [unlines]

@[simp] theorem unlines_append (ls ls' : List (List Char)) :
    unlines (ls ++ ls') = unlines ls ++ unlines ls' :=
  List.flatMap_append

section

variable {isEnd : Char → Bool} (hend : isEnd '\n' = true)

include hend

/-- A line is found again in front of other text. -/
theorem splitLines_append {l : List Char} (h : ∀ c ∈ l, isEnd c = false) (cs : List Char) :
    splitLines isEnd false (l ++ '\n' :: cs) = l :: splitLines isEnd false cs := by
  induction l with
  | nil =>
      rw [List.nil_append, splitLines, Bool.false_and, if_neg Bool.false_ne_true, if_pos hend]
      rfl
  | cons c l ih =>
      rw [List.cons_append, splitLines, Bool.false_and, if_neg Bool.false_ne_true,
        if_neg (by rw [h c (.head _)]; exact Bool.false_ne_true),
        ih fun d hd => h d (.tail _ hd)]

/-- Lines that were written are found again, whatever follows them. -/
theorem splitLines_unlines {ls : List (List Char)} (h : ∀ l ∈ ls, ∀ c ∈ l, isEnd c = false)
    (cs : List Char) :
    splitLines isEnd false (unlines ls ++ cs) = ls ++ splitLines isEnd false cs := by
  induction ls with
  | nil => rfl
  | cons l ls ih =>
      rw [unlines_cons, List.append_assoc, List.cons_append, splitLines_append hend (h l (.head _)),
        ih fun l' hl' => h l' (.tail _ hl'), List.cons_append]

/-- Behind a newline the lines are those of the text that follows. -/
theorem splitLines_newline (cr : Bool) (cs ds : List Char) :
    ∃ ls, splitLines isEnd cr (cs ++ '\n' :: ds) = ls ++ splitLines isEnd false ds ∧
      (cr = false → ls ≠ []) := by
  induction cs generalizing cr with
  | nil =>
      rw [List.nil_append, splitLines, if_pos hend]
      cases cr with
      | true => exact ⟨[], rfl, fun h => by cases h⟩
      | false => exact ⟨[[]], rfl, fun _ => List.cons_ne_nil _ _⟩
  | cons c cs ih =>
      rw [List.cons_append, splitLines]
      split
      next hswallow =>
        obtain ⟨ls, hls, -⟩ := ih false
        refine ⟨ls, hls, fun hcr => ?_⟩
        rw [hcr] at hswallow
        cases hswallow
      next =>
        split
        next =>
          obtain ⟨ls, hls, -⟩ := ih (c == '\r')
          exact ⟨[] :: ls, by rw [hls, List.cons_append], fun _ => List.cons_ne_nil _ _⟩
        next =>
          obtain ⟨ls, hls, hne⟩ := ih false
          rw [hls]
          cases ls with
          | nil => exact absurd rfl (hne rfl)
          | cons l ls => exact ⟨(c :: l) :: ls, rfl, fun _ => List.cons_ne_nil _ _⟩

/-- The lines behind the first of a part at the end are lines of the whole text. -/
theorem splitLines_part (cr : Bool) (cs ds : List Char) :
    ∃ ls, splitLines isEnd cr (cs ++ ds) = ls ++ (splitLines isEnd false ds).drop 1 ∧
      (cr = false → ls = [] → (splitLines isEnd false ds).drop 1 = []) := by
  induction cs generalizing cr with
  | nil =>
      rw [List.nil_append]
      have hself (ls : List (List Char)) : ∃ ls', ls = ls' ++ ls.drop 1 ∧
          (ls' = [] → ls.drop 1 = []) := by
        cases ls with
        | nil => exact ⟨[], rfl, fun _ => rfl⟩
        | cons l ls => exact ⟨[l], rfl, fun h => absurd h (List.cons_ne_nil _ _)⟩
      cases ds with
      | nil => exact ⟨[], by rw [splitLines]; rfl, fun _ _ => by rw [splitLines]; rfl⟩
      | cons d ds =>
          by_cases hswallow : (cr && d == '\n') = true
          · obtain ⟨hcr, hd⟩ := Bool.and_eq_true _ _ ▸ hswallow
            have hd' : d = '\n' := beq_iff_eq.mp hd
            refine ⟨[], ?_, fun hfalse => ?_⟩
            · rw [splitLines, if_pos hswallow, splitLines, Bool.false_and,
                if_neg Bool.false_ne_true, if_pos (hd' ▸ hend), hd']
              rfl
            · rw [hfalse] at hcr
              cases hcr
          · obtain ⟨ls, hls, hnil⟩ := hself (splitLines isEnd false (d :: ds))
            refine ⟨ls, ?_, fun _ => hnil⟩
            rw [← hls, splitLines, if_neg hswallow, splitLines, Bool.false_and,
              if_neg Bool.false_ne_true]
  | cons c cs ih =>
      rw [List.cons_append, splitLines]
      split
      next hswallow =>
        obtain ⟨ls, hls, -⟩ := ih false
        refine ⟨ls, hls, fun hcr => ?_⟩
        rw [hcr] at hswallow
        cases hswallow
      next =>
        split
        next =>
          obtain ⟨ls, hls, -⟩ := ih (c == '\r')
          exact ⟨[] :: ls, by rw [hls, List.cons_append],
            fun _ h => absurd h (List.cons_ne_nil _ _)⟩
        next =>
          obtain ⟨ls, hls, hnil⟩ := ih false
          rw [hls]
          cases ls with
          | nil =>
              rw [hnil rfl rfl]
              exact ⟨[[c]], rfl, fun _ _ => rfl⟩
          | cons l ls =>
              exact ⟨(c :: l) :: ls, rfl, fun _ h => absurd h (List.cons_ne_nil _ _)⟩

/-- The lines of a text that ends with a line, and of what is written behind it. -/
theorem splitLines_append_newline (cr : Bool) (cs ds : List Char) :
    splitLines isEnd cr (cs ++ '\n' :: ds) =
      splitLines isEnd cr (cs ++ ['\n']) ++ splitLines isEnd false ds := by
  induction cs generalizing cr with
  | nil =>
      simp only [List.nil_append, splitLines, hend, if_true]
      cases cr with
      | true => rfl
      | false => rfl
  | cons c cs ih =>
      rw [List.cons_append, List.cons_append, splitLines, splitLines]
      split
      next => exact ih false
      next =>
        split
        next => rw [ih, List.cons_append]
        next =>
          obtain ⟨ls, hls, hne⟩ := splitLines_newline hend false cs []
          rw [splitLines, List.append_nil] at hls
          rw [ih, hls]
          cases ls with
          | nil => exact absurd rfl (hne rfl)
          | cons l ls => rfl

/-- What is written behind a part of a line makes no further line. -/
theorem length_splitLines_append (cr : Bool) {cs ds : List Char} {c : Char}
    (hlast : cs.getLast? = some c) (hc : isEnd c = false)
    (hds : (splitLines isEnd false ds).length ≤ 1) :
    (splitLines isEnd cr (cs ++ ds)).length = (splitLines isEnd cr cs).length := by
  have hmatch : ∀ (d : Char) (ls : List (List Char)), (match ls with
      | [] => [[d]]
      | l :: ls => (d :: l) :: ls).length = max 1 ls.length := by
    intro d ls
    cases ls with
    | nil => rfl
    | cons l ls => simp
  induction cs generalizing cr with
  | nil => cases hlast
  | cons d cs ih =>
      rw [List.cons_append, splitLines, splitLines]
      cases cs with
      | nil =>
          obtain rfl : d = c := Option.some.inj hlast
          have hne : (d == '\n') = false := by
            rw [beq_eq_false_iff_ne]
            rintro rfl
            rw [hend] at hc
            cases hc
          rw [List.nil_append, hne, Bool.and_false, if_neg Bool.false_ne_true,
            if_neg Bool.false_ne_true, hc, if_neg Bool.false_ne_true, if_neg Bool.false_ne_true]
          rw [hmatch, hmatch, max_eq_left hds, splitLines]
          rfl
      | cons d' cs =>
          rw [List.getLast?_cons_cons] at hlast
          split
          next => exact ih false hlast
          next =>
            split
            next => rw [List.length_cons, List.length_cons, ih _ hlast]
            next => rw [hmatch, hmatch, ih _ hlast]

end

/-- A text without ends of lines is one line. -/
theorem splitLines_single {isEnd : Char → Bool} {c : Char} {cs : List Char}
    (h : ∀ d ∈ c :: cs, isEnd d = false) : splitLines isEnd false (c :: cs) = [c :: cs] := by
  induction cs generalizing c with
  | nil =>
      rw [splitLines, Bool.false_and, if_neg Bool.false_ne_true, h c (.head _),
        if_neg Bool.false_ne_true, splitLines]
  | cons d cs ih =>
      rw [splitLines, Bool.false_and, if_neg Bool.false_ne_true, h c (.head _),
        if_neg Bool.false_ne_true, ih fun e he => h e (.tail _ he)]

/-- The lines that are not blank, without the blanks around them. -/
def notBlank (ls : List (List Char)) : List (List Char) := (ls.map strip).filter (· ≠ [])

/-! ## What is written -/

/-- Printable ASCII. -/
def Printable (c : Char) : Prop := 32 ≤ c.toNat ∧ c.toNat ≤ 126

instance (c : Char) : Decidable (Printable c) := inferInstanceAs (Decidable (_ ∧ _))

theorem Printable.ofText_lt {cs : List Char} (h : ∀ c ∈ cs, Printable c) :
    ∀ c ∈ ofText cs, c.val < 0xD800 := by
  intro c hc
  obtain ⟨d, hd, rfl⟩ := List.mem_map.mp hc
  exact lt_of_le_of_lt (h d hd).2 (by decide)

theorem Printable.isNewline {c : Char} (h : Printable c) : isNewline c = false := by
  simp only [Basis.isNewline, Bool.or_eq_false_iff, beq_eq_false_iff_ne, ne_eq]
  constructor
  · rintro rfl
    exact absurd h.1 (by decide)
  · rintro rfl
    exact absurd h.1 (by decide)

theorem Printable.isLineBreak {c : Char} (h : Printable c) : isLineBreak c = false := by
  obtain ⟨hlow, hhigh⟩ := h
  simp only [Basis.isLineBreak, Bool.or_eq_false_iff, Bool.and_eq_false_iff, decide_eq_false_iff_not,
    beq_eq_false_iff_ne, ne_eq]
  omega

theorem printable_of_isDigit {c : Char} (h : c.isDigit = true) : Printable c := by
  simp only [Char.isDigit, Bool.and_eq_true, decide_eq_true_eq, UInt32.le_iff_toNat_le] at h
  exact ⟨le_trans (by decide) h.1, le_trans h.2 (by decide)⟩

theorem printable_of_numberChar {c : Char} (h : numberChar c = true) : Printable c := by
  simp only [numberChar, Bool.or_eq_true, beq_iff_eq] at h
  rcases h with ((((h | rfl) | rfl) | rfl) | rfl) | rfl
  · exact printable_of_isDigit h
  all_goals exact ⟨by decide, by decide⟩

theorem printable_digitChar {n : ℕ} (h : n < 16) : Printable (Nat.digitChar n) := by
  interval_cases n <;> exact ⟨by decide, by decide⟩

theorem printable_shortEscapes : ∀ p ∈ shortEscapes, Printable p.2 := by decide

/-- A text that is written out is checked character by character. -/
theorem printable_of_all {cs : List Char} (h : cs.all (fun c => decide (Printable c)) = true) :
    ∀ c ∈ cs, Printable c := by
  simpa using h

theorem printable_specials : ∀ w ∈ specials, ∀ c ∈ w, Printable c := by
  intro w hw
  simp only [specials, List.mem_cons, List.not_mem_nil, or_false] at hw
  rcases hw with rfl | rfl | rfl
  · exact printable_of_all (by decide)
  · exact printable_of_all (by decide)
  · exact printable_of_all (by decide)

theorem printable_unitText (u : CodeUnit) : ∀ c ∈ unitText u, Printable c := by
  intro c hc
  rw [unitText] at hc
  split at hc
  next e he =>
    obtain ⟨⟨m, e'⟩, hfind, rfl⟩ := Option.map_eq_some_iff.mp he
    have hmem := List.mem_of_find?_eq_some hfind
    rcases List.mem_cons.mp hc with rfl | hc
    · exact ⟨by decide, by decide⟩
    · rw [List.mem_singleton.mp hc]
      exact printable_shortEscapes _ hmem
  next =>
    split at hc
    next hplain =>
      have hnat : (Char.ofNat u.val).toNat = u.val := by
        rw [Char.ofNat, dif_pos (.inl (by omega))]
        rfl
      rw [List.mem_singleton.mp hc, Printable, hnat]
      exact hplain
    next =>
      have hlt (m : ℕ) : m % 16 < 16 := Nat.mod_lt m (by decide)
      rcases List.mem_cons.mp hc with rfl | hc
      · exact ⟨by decide, by decide⟩
      rcases List.mem_cons.mp hc with rfl | hc
      · exact ⟨by decide, by decide⟩
      simp only [hex4, List.mem_cons, List.not_mem_nil, or_false] at hc
      rcases hc with rfl | rfl | rfl | rfl <;> exact printable_digitChar (hlt _)

theorem printable_stringRest (us : List CodeUnit) : ∀ c ∈ stringRest us, Printable c := by
  intro c hc
  rcases List.mem_append.mp hc with hc | hc
  · obtain ⟨u, -, hu⟩ := List.mem_flatMap.mp hc
    exact printable_unitText u c hu
  · rw [List.mem_singleton.mp hc]
    exact ⟨by decide, by decide⟩

theorem printable_joined {close : Char} (hclose : Printable close) {ts : List (List Char)}
    (h : ∀ t ∈ ts, ∀ c ∈ t, Printable c) : ∀ c ∈ joined close ts, Printable c := by
  intro c hc
  induction ts using joined.induct with
  | case1 =>
      rw [joined, List.mem_singleton] at hc
      exact hc ▸ hclose
  | case2 t =>
      rw [joined, List.mem_append, List.mem_singleton] at hc
      rcases hc with hc | rfl
      · exact h t (.head _) c hc
      · exact hclose
  | case3 t t' ts ih =>
      rw [joined, List.mem_append, List.mem_cons, List.mem_cons] at hc
      rcases hc with hc | rfl | rfl | hc
      · exact h t (.head _) c hc
      · exact ⟨by decide, by decide⟩
      · exact ⟨by decide, by decide⟩
      · exact ih (fun t' ht' => h t' (.tail _ ht')) hc

variable (fl : Floats)

theorem printable_float (x : fl.F) : ∀ c ∈ fl.text x, Printable c := by
  intro c hc
  rcases fl.text_shape x with hx | hx
  · exact printable_specials _ hx c hc
  · rw [isFloatLiteral, Bool.and_eq_true, Bool.and_eq_true, List.all_eq_true] at hx
    exact printable_of_numberChar (hx.1.1 c hc)

theorem printMembers_eq (ms : List (List CodeUnit × Json fl.F)) : printMembers fl ms =
    ms.map fun m => '"' :: (stringRest m.1 ++ ':' :: ' ' :: print fl m.2) := by
  induction ms with
  | nil => rw [printMembers, List.map_nil]
  | cons m ms ih => rw [printMembers, ih, List.map_cons]

theorem printItems_eq (xs : List (Json fl.F)) : printItems fl xs = xs.map (print fl) := by
  induction xs with
  | nil => rw [printItems, List.map_nil]
  | cons v xs ih => rw [printItems, ih, List.map_cons]

/-- What is written is printable ASCII. -/
theorem printable_print (v : Json fl.F) : ∀ c ∈ print fl v, Printable c := by
  induction v using Json.ind with
  | null =>
      rw [print]
      exact printable_of_all (by decide)
  | bool b =>
      cases b with
      | false =>
          rw [print]
          exact printable_of_all (by decide)
      | true =>
          rw [print]
          exact printable_of_all (by decide)
  | int n =>
      rw [print]
      exact fun c hc => printable_of_numberChar (numberChar_intText n c hc)
  | float x =>
      rw [print]
      exact printable_float fl x
  | str us =>
      rw [print, List.forall_mem_cons]
      exact ⟨by decide, printable_stringRest us⟩
  | arr xs ih =>
      rw [print, List.forall_mem_cons, printItems_eq]
      refine ⟨by decide, printable_joined (by decide) fun t ht => ?_⟩
      obtain ⟨v, hv, rfl⟩ := List.mem_map.mp ht
      exact ih v hv
  | obj ms ih =>
      rw [print, List.forall_mem_cons, printMembers_eq]
      refine ⟨by decide, printable_joined (by decide) fun t ht => ?_⟩
      obtain ⟨m, hm, rfl⟩ := List.mem_map.mp ht
      rw [List.forall_mem_cons, List.forall_mem_append, List.forall_mem_cons, List.forall_mem_cons]
      exact ⟨by decide, printable_stringRest m.1, by decide, by decide, ih m hm⟩

/-! ## Objects on a line -/

theorem joined_eq_append (close : Char) (ts : List (List Char)) :
    ∃ t, joined close ts = t ++ [close] := by
  induction ts using joined.induct with
  | case1 => exact ⟨[], rfl⟩
  | case2 t => exact ⟨t, rfl⟩
  | case3 t t' ts ih =>
      obtain ⟨u, hu⟩ := ih
      exact ⟨t ++ ',' :: ' ' :: u, by rw [joined, hu, List.append_assoc]; rfl⟩

/-- The text of an object stands between braces. -/
theorem print_obj_braces (ms : List (List CodeUnit × Json fl.F)) :
    ∃ t, print fl (.obj ms) = '{' :: (t ++ ['}']) := by
  obtain ⟨t, ht⟩ := joined_eq_append '}' (printMembers fl ms)
  exact ⟨t, by rw [print, ht]⟩

theorem strip_print_obj (ms : List (List CodeUnit × Json fl.F)) :
    strip (print fl (.obj ms)) = print fl (.obj ms) := by
  obtain ⟨t, ht⟩ := print_obj_braces fl ms
  rw [ht, strip, List.dropWhile_cons_of_neg (by decide), List.reverse_cons, List.reverse_append,
    List.reverse_singleton, List.singleton_append, List.cons_append,
    List.dropWhile_cons_of_neg (by decide), List.reverse_cons, List.reverse_append,
    List.reverse_reverse]
  rfl

/-- What is written is read as dictionaries. -/
theorem loads_print (v : Json fl.F) : loads fl (print fl v) = some v.asDict := by
  rw [loads, parseJson_print, Option.map_some]

end Basis
