import AutonomousEngine.Basis.Json
import Mathlib.Data.List.Forall2
import Mathlib.Data.List.TakeWhile

/-!
# What is written as JSON is read back

A reading takes a part off the front of a text.  What it takes depends on what
comes after it only for a number, and there only on whether more of its characters
follow (`SelfDelimiting`).  From this come the bound on the fuel and that a text
of an object which is cut off is not read (`parseJson_eq_none_of_prefix`).  In the
other direction what is written for a value is read as the value (`parseJson_print`),
and so different values have different texts (`print_injective`).
-/

namespace Basis

variable (fl : Floats)

/-! ## A reading depends on what it reads -/

/-- A reader of a part of a text: it takes something off the front, and it takes
the same off every text that goes on in an admitted way. -/
def SelfDelimiting {α : Type} (ok : List Char → Prop)
    (read : List Char → Option (α × List Char)) : Prop :=
  ∀ {cs a rest}, read cs = some (a, rest) →
    ∃ front, front ≠ [] ∧ cs = front ++ rest ∧ ∀ u, ok u → read (front ++ u) = some (a, u)

theorem SelfDelimiting.length_lt {α : Type} {ok : List Char → Prop}
    {read : List Char → Option (α × List Char)} (h : SelfDelimiting ok read) {cs rest : List Char}
    {a : α} (hr : read cs = some (a, rest)) : rest.length < cs.length := by
  obtain ⟨front, hne, rfl, -⟩ := h hr
  have hpos := List.length_pos_iff.mpr hne
  rw [List.length_append]
  omega

/-- No character of a number comes next. -/
def Follow (cs : List Char) : Prop := ∀ c ∈ cs.head?, numberChar c = false

/-- What is read after blanks is read after the same blanks. -/
theorem skipWs_split (cs : List Char) :
    ∃ ws, cs = ws ++ skipWs cs ∧ (∀ c ∈ ws, isWs c = true) := by
  refine ⟨cs.takeWhile isWs, List.takeWhile_append_dropWhile.symm, fun c hc => ?_⟩
  exact List.all_eq_true.mp List.all_takeWhile c hc

theorem skipWs_append {ws : List Char} (h : ∀ c ∈ ws, isWs c = true) (cs : List Char) :
    skipWs (ws ++ cs) = skipWs cs :=
  List.dropWhile_append_of_pos h

theorem skipWs_of_head {c : Char} (h : isWs c = false) (cs : List Char) :
    skipWs (c :: cs) = c :: cs := by
  rw [skipWs, List.dropWhile_cons_of_neg (by simp [h])]

theorem isWs_of_skipWs {c : Char} {cs rest : List Char} (h : skipWs cs = c :: rest) :
    isWs c = false := by
  have hhead := List.head?_dropWhile_not isWs cs
  rw [skipWs] at h
  rw [h] at hhead
  exact hhead

/-- A blank or a bracket may follow a number. -/
theorem follow_of_skipWs {c : Char} {cs rest : List Char} (h : skipWs cs = c :: rest)
    (hc : numberChar c = false) : Follow cs := by
  obtain ⟨ws, hcs, hws⟩ := skipWs_split cs
  rw [h] at hcs
  intro d hd
  cases ws with
  | nil =>
      rw [hcs] at hd
      obtain rfl : c = d := by simpa using hd
      exact hc
  | cons w ws =>
      rw [hcs] at hd
      obtain rfl : w = d := by simpa using hd
      have hw := hws w (.head _)
      simp only [isWs, Bool.or_eq_true, beq_iff_eq] at hw
      rcases hw with ((rfl | rfl) | rfl) | rfl <;> rfl

/-- A reader that reads on behind a fixed part. -/
theorem front_of_map {α : Type} {read : List Char → Option (α × List Char)} {g : α → α}
    {part cs rest : List Char} {a : α}
    (hread : ∀ u, read (part ++ u) = (read u).map fun p => (g p.1, p.2))
    (ih : ∀ {b}, read cs = some (b, rest) → ∃ front, front ≠ [] ∧ cs = front ++ rest ∧
      ∀ u, True → read (front ++ u) = some (b, u))
    (h : read (part ++ cs) = some (a, rest)) :
    ∃ front, front ≠ [] ∧ part ++ cs = front ++ rest ∧
      ∀ u, True → read (front ++ u) = some (a, u) := by
  rw [hread] at h
  obtain ⟨⟨b, r⟩, hb, hp⟩ := Option.map_eq_some_iff.mp h
  obtain ⟨rfl, rfl⟩ := Prod.mk.inj hp
  obtain ⟨front, hne, hcs, hfront⟩ := ih hb
  refine ⟨part ++ front, by simp [hne], by rw [hcs, List.append_assoc], fun u hu => ?_⟩
  rw [List.append_assoc, hread, hfront u hu]
  rfl

/-- A hexadecimal escape that ends early is not read. -/
theorem scanString_short {cs : List Char} (h : cs.length < 4) :
    scanString ('\\' :: 'u' :: cs) = none := by
  rw [scanString.eq_def]
  rcases cs with - | ⟨a, - | ⟨b, - | ⟨c, - | ⟨d, cs⟩⟩⟩⟩
  · rfl
  · rfl
  · rfl
  · rfl
  · simp at h
    omega

theorem selfDelimiting_scanString : SelfDelimiting (fun _ => True) scanString := by
  intro cs
  -- a step reads one, two or six characters: the induction is on the length of what is left
  induction hlen : cs.length using Nat.strong_induction_on generalizing cs with
  | _ N ih =>
      intro us rest h
      rcases cs with - | ⟨c, cs⟩
      · rw [scanString.eq_def] at h
        cases h
      by_cases hq : c = '"'
      · subst hq
        rw [scanString_quote] at h
        cases h
        exact ⟨['"'], by simp, rfl, fun u _ => scanString_quote u⟩
      by_cases hb : c = '\\'
      · subst hb
        rcases cs with - | ⟨e, cs⟩
        · rw [scanString.eq_def] at h
          simp at h
        by_cases he : e = 'u'
        · subst he
          rcases cs with - | ⟨a, - | ⟨b, - | ⟨c, - | ⟨d, cs⟩⟩⟩⟩
          case cons.cons.cons.cons =>
            cases hn : hexValue4 a b c d with
            | none =>
                rw [scanString_hex, hn] at h
                cases h
            | some n =>
                have hread : ∀ u, scanString (['\\', 'u', a, b, c, d] ++ u) =
                    (scanString u).map fun p => (Fin.ofNat 0x10000 n :: p.1, p.2) := fun u =>
                  (scanString_hex a b c d u).trans (by rw [hn, Option.bind_some])
                have hlt : cs.length < N := by
                  rw [← hlen]
                  simp only [List.length_cons]
                  omega
                exact front_of_map (g := (Fin.ofNat 0x10000 n :: ·)) hread (ih _ hlt rfl) h
          all_goals
            rw [scanString_short (by simp)] at h
            cases h
        · cases hn : unescape e with
          | none =>
              rw [scanString_escape he, hn] at h
              cases h
          | some n =>
              have hread : ∀ u, scanString (['\\', e] ++ u) =
                  (scanString u).map fun p => (Fin.ofNat 0x10000 n :: p.1, p.2) := fun u =>
                (scanString_escape he u).trans (by rw [hn, Option.bind_some])
              have hlt : cs.length < N := by
                rw [← hlen, List.length_cons, List.length_cons]
                omega
              exact front_of_map (g := (Fin.ofNat 0x10000 n :: ·)) hread (ih _ hlt rfl) h
      by_cases hc : c.toNat < 32
      · rw [scanString.eq_def] at h
        simp [hq, hb, hc] at h
      · have hread : ∀ u, scanString ([c] ++ u) =
            (scanString u).map fun p => (unitsOf (ofChar c) ++ p.1, p.2) := fun u =>
          scanString_char hq hb (not_lt.mp hc) u
        have hlt : cs.length < N := by
          rw [← hlen, List.length_cons]
          omega
        exact front_of_map (g := (unitsOf (ofChar c) ++ ·)) hread (ih _ hlt rfl) h

/-! ### Words and numbers -/

theorem digit_of_naturalOf {cs : List Char} {n : ℕ}
    (h : naturalOf (cs.takeWhile Char.isDigit) = some n) :
    ∃ d ds, cs = d :: ds ∧ d.isDigit = true := by
  cases cs with
  | nil => simp [naturalOf] at h
  | cons d ds =>
      cases hd : d.isDigit with
      | true => exact ⟨d, ds, rfl, hd⟩
      | false => simp [naturalOf, hd] at h

/-- A number begins with a digit or with a sign and a digit. -/
theorem head_of_parseNumber {F : Type} {ofText : List Char → F} {cs : List Char} {v : Json F}
    (h : parseNumber ofText cs = some v) :
    ∃ d ds, d.isDigit = true ∧ (cs = d :: ds ∨ cs = '-' :: d :: ds) := by
  obtain ⟨n, hn, -⟩ := Option.bind_eq_some_iff.mp h
  obtain ⟨d, ds, hbody, hd⟩ := digit_of_naturalOf hn
  refine ⟨d, ds, hd, ?_⟩
  cases cs with
  | nil => cases hbody
  | cons c cs =>
      by_cases hc : c = '-'
      · simp only [splitSign, if_pos hc] at hbody
        exact .inr (by rw [hc, hbody])
      · simp only [splitSign, if_neg hc] at hbody
        exact .inl hbody

/-- What begins like a number is none of the words. -/
theorem parseAtom_of_digit {d : Char} (hd : d.isDigit = true) {cs ds : List Char}
    (h : cs = d :: ds ∨ cs = '-' :: d :: ds) :
    parseAtom fl cs = (parseNumber fl.ofText (cs.takeWhile numberChar)).map
      fun v => (v, cs.dropWhile numberChar) := by
  have hne (c : Char) (hc : c.isDigit = false) : c ≠ d := fun heq => by
    rw [heq, hd] at hc
    cases hc
  have hn := hne 'n' rfl
  have ht := hne 't' rfl
  have hf := hne 'f' rfl
  have hN := hne 'N' rfl
  have hI := hne 'I' rfl
  have hm := hne '-' rfl
  rcases h with rfl | rfl
  · simp [parseAtom, specials, hn, ht, hf, hN, hI, hm]
  · simp [parseAtom, specials, hI]

theorem numberChar_of_isDigit {c : Char} (h : c.isDigit = true) : numberChar c = true := by
  simp [numberChar, h]

theorem takeWhile_append_follow {front u : List Char} (h : ∀ c ∈ front, numberChar c = true)
    (hu : Follow u) : (front ++ u).takeWhile numberChar = front ∧
      (front ++ u).dropWhile numberChar = u := by
  rw [List.takeWhile_append_of_pos h, List.dropWhile_append_of_pos h]
  cases u with
  | nil => simp
  | cons c u =>
      have hc := hu c rfl
      simp [hc]

theorem parseAtom_null (u : List Char) :
    parseAtom fl ("null".toList ++ u) = some (.null, u) := by
  simp [parseAtom]

theorem parseAtom_true (u : List Char) :
    parseAtom fl ("true".toList ++ u) = some (.bool true, u) := by
  simp [parseAtom]

theorem parseAtom_false (u : List Char) :
    parseAtom fl ("false".toList ++ u) = some (.bool false, u) := by
  simp [parseAtom]

theorem parseAtom_special {w : List Char} (hw : w ∈ specials) (u : List Char) :
    parseAtom fl (w ++ u) = some (.float (fl.ofText w), u) := by
  simp only [specials, List.mem_cons, List.not_mem_nil, or_false] at hw
  rcases hw with rfl | rfl | rfl
  · rfl
  · rfl
  · rfl

/-- A number that is followed by none of its characters. -/
theorem parseAtom_number {front : List Char} {v : Json fl.F}
    (hv : parseNumber fl.ofText front = some v) (hall : ∀ c ∈ front, numberChar c = true)
    {u : List Char} (hu : Follow u) : parseAtom fl (front ++ u) = some (v, u) := by
  obtain ⟨htake, hdrop⟩ := takeWhile_append_follow hall hu
  obtain ⟨d, ds, hd, hfront⟩ := head_of_parseNumber hv
  have hcs : front ++ u = d :: (ds ++ u) ∨ front ++ u = '-' :: d :: (ds ++ u) := by
    rcases hfront with rfl | rfl
    · exact .inl rfl
    · exact .inr rfl
  rw [parseAtom_of_digit fl hd hcs, htake, hdrop, hv]
  rfl

theorem selfDelimiting_parseAtom : SelfDelimiting Follow (parseAtom fl) := by
  intro cs v rest h
  have hword {w : List Char} (hne : w ≠ []) (hw : w.isPrefixOf cs = true)
      (hread : ∀ u, parseAtom fl (w ++ u) = some (v, u)) (hrest : rest = cs.drop w.length) :
      ∃ front, front ≠ [] ∧ cs = front ++ rest ∧
        ∀ u, Follow u → parseAtom fl (front ++ u) = some (v, u) := by
    obtain ⟨u, rfl⟩ := List.isPrefixOf_iff_prefix.mp hw
    exact ⟨w, hne, by rw [hrest, List.drop_left], fun u _ => hread u⟩
  rw [parseAtom] at h
  split at h
  next hw =>
    obtain ⟨rfl, rfl⟩ := Prod.mk.inj (Option.some.inj h)
    exact hword (by simp) hw (parseAtom_null fl) rfl
  next =>
    split at h
    next hw =>
      obtain ⟨rfl, rfl⟩ := Prod.mk.inj (Option.some.inj h)
      exact hword (by simp) hw (parseAtom_true fl) rfl
    next =>
      split at h
      next hw =>
        obtain ⟨rfl, rfl⟩ := Prod.mk.inj (Option.some.inj h)
        exact hword (by simp) hw (parseAtom_false fl) rfl
      next =>
        split at h
        next w hfind =>
          obtain ⟨rfl, rfl⟩ := Prod.mk.inj (Option.some.inj h)
          have hmem := List.mem_of_find?_eq_some hfind
          have hne : w ≠ [] := by
            rintro rfl
            simp [specials] at hmem
          have hw : w.isPrefixOf cs = true := by simpa using List.find?_some hfind
          exact hword hne hw (parseAtom_special fl hmem) rfl
        next =>
          obtain ⟨v, hv, hp⟩ := Option.map_eq_some_iff.mp h
          obtain ⟨rfl, rfl⟩ := Prod.mk.inj hp
          obtain ⟨d, ds, -, hfront⟩ := head_of_parseNumber hv
          refine ⟨cs.takeWhile numberChar, ?_, List.takeWhile_append_dropWhile.symm, ?_⟩
          · rcases hfront with hfront | hfront
            · simp [hfront]
            · simp [hfront]
          · exact fun u hu =>
              parseAtom_number fl hv (fun c hc => List.all_eq_true.mp List.all_takeWhile c hc) hu

/-! ### Values -/

/-- A bracket behind blanks stays where it is whatever comes after it. -/
theorem skipWs_eq_cons {c : Char} {cs rest : List Char} (h : skipWs cs = c :: rest)
    (hc : numberChar c = false) : ∃ ws, cs = ws ++ c :: rest ∧
      ∀ u, skipWs (ws ++ c :: u) = c :: u ∧ Follow (ws ++ c :: u) := by
  obtain ⟨ws, hcs, hws⟩ := skipWs_split cs
  rw [h] at hcs
  refine ⟨ws, hcs, fun u => ?_⟩
  have hskip : skipWs (ws ++ c :: u) = c :: u := by
    rw [skipWs_append hws, skipWs_of_head (isWs_of_skipWs h)]
  exact ⟨hskip, follow_of_skipWs hskip hc⟩

/-- A reading goes on behind blanks with what is read there. -/
theorem skipWs_eq_append {front rest cs : List Char} (h : skipWs cs = front ++ rest)
    (hne : front ≠ []) : ∃ ws, cs = ws ++ (front ++ rest) ∧
      ∀ u, skipWs (ws ++ (front ++ u)) = front ++ u := by
  obtain ⟨c, front, rfl⟩ := List.exists_cons_of_ne_nil hne
  obtain ⟨ws, hcs, hws⟩ := skipWs_split cs
  refine ⟨ws, by rw [← h, ← hcs], fun u => ?_⟩
  rw [skipWs_append hws, List.cons_append,
    skipWs_of_head (isWs_of_skipWs (h.trans (List.cons_append ..)))]

theorem selfDelimiting_parseList {α : Type} {read : List Char → Option (α × List Char)}
    (hread : SelfDelimiting Follow read) {close : Char} (hclose : numberChar close = false)
    (n : ℕ) : SelfDelimiting (fun _ => True) (parseList read close n) := by
  induction n with
  | zero =>
      intro cs as rest h
      cases h
  | succ n ih =>
      intro cs as rest h
      rw [parseList] at h
      obtain ⟨⟨a, r⟩, ha, hrest⟩ := Option.bind_eq_some_iff.mp h
      obtain ⟨front, hne, rfl, hfront⟩ := hread ha
      clear h
      split at hrest
      next => cases hrest
      next c rest' hr =>
        dsimp only at hr
        split at hrest
        next hc =>
          obtain ⟨rfl, rfl⟩ := Prod.mk.inj (Option.some.inj hrest)
          subst hc
          obtain ⟨ws, rfl, hws⟩ := skipWs_eq_cons hr hclose
          refine ⟨front ++ (ws ++ [c]), by simp [hne], by simp, fun u _ => ?_⟩
          rw [List.append_assoc, List.append_assoc, parseList, List.singleton_append,
            hfront _ (hws u).2, Option.bind_some]
          dsimp only
          rw [(hws u).1]
          dsimp only
          rw [if_pos rfl]
        next hc =>
          split at hrest
          next hcomma =>
            subst hcomma
            obtain ⟨⟨as', r'⟩, hq, heq⟩ := Option.map_eq_some_iff.mp hrest
            obtain ⟨rfl, rfl⟩ := Prod.mk.inj heq
            obtain ⟨front', hne', hskip, hfront'⟩ := ih hq
            obtain ⟨ws, rfl, hws⟩ := skipWs_eq_cons hr rfl
            obtain ⟨ws', rfl, hws'⟩ := skipWs_eq_append hskip hne'
            refine ⟨front ++ (ws ++ ',' :: (ws' ++ front')), by simp [hne], by simp, fun u _ => ?_⟩
            rw [List.append_assoc, List.append_assoc, parseList, List.cons_append,
              List.append_assoc, hfront _ (hws _).2, Option.bind_some]
            dsimp only
            rw [(hws _).1]
            dsimp only
            rw [if_neg hc, if_pos rfl, hws' u, hfront' u trivial]
            rfl
          next => cases hrest

theorem selfDelimiting_parseMember {α : Type} {read : List Char → Option (α × List Char)}
    (hread : SelfDelimiting Follow read) : SelfDelimiting Follow (parseMember read) := by
  intro cs m rest h
  cases cs with
  | nil => cases h
  | cons q cs =>
      rw [parseMember] at h
      split at h
      next hquote =>
        subst hquote
        obtain ⟨⟨k, r⟩, hk, hrest⟩ := Option.bind_eq_some_iff.mp h
        obtain ⟨frontk, -, rfl, hfrontk⟩ := selfDelimiting_scanString hk
        clear h
        split at hrest
        next => cases hrest
        next c rest' hr =>
          dsimp only at hr
          split at hrest
          next hcolon =>
            subst hcolon
            obtain ⟨ws, rfl, hws⟩ := skipWs_eq_cons hr rfl
            obtain ⟨⟨a, r⟩, ha, heq⟩ := Option.map_eq_some_iff.mp hrest
            obtain ⟨rfl, rfl⟩ := Prod.mk.inj heq
            obtain ⟨front, hne, hskip, hfront⟩ := hread ha
            obtain ⟨ws', rfl, hws'⟩ := skipWs_eq_append hskip hne
            refine ⟨'"' :: (frontk ++ (ws ++ ':' :: (ws' ++ front))), by simp, by simp,
              fun u hu => ?_⟩
            simp only [List.cons_append, List.append_assoc]
            rw [parseMember, if_pos rfl, hfrontk _ trivial, Option.bind_some]
            dsimp only
            rw [(hws _).1]
            dsimp only
            rw [if_pos rfl, hws', hfront u hu]
            rfl
          next => cases hrest
      next => cases h

/-- What is read behind an opening bracket. -/
theorem front_of_bracket {α β : Type} {read : List Char → Option (β × List Char)} {f : β → α}
    {cs rest : List Char} {a : α} (hread : SelfDelimiting (fun _ => True) read)
    (h : (read (skipWs cs)).map (fun p => (f p.1, p.2)) = some (a, rest)) :
    ∃ front, cs = front ++ rest ∧ ∀ u, (skipWs (front ++ u)).head? = (skipWs cs).head? ∧
      (read (skipWs (front ++ u))).map (fun p => (f p.1, p.2)) = some (a, u) := by
  obtain ⟨⟨b, r⟩, hb, heq⟩ := Option.map_eq_some_iff.mp h
  obtain ⟨rfl, rfl⟩ := Prod.mk.inj heq
  obtain ⟨front, hne, hskip, hfront⟩ := hread hb
  obtain ⟨c, front, rfl⟩ := List.exists_cons_of_ne_nil hne
  obtain ⟨ws, hcs, hws⟩ := skipWs_eq_append hskip hne
  refine ⟨ws ++ c :: front, by rw [hcs, List.append_assoc], fun u => ?_⟩
  rw [List.append_assoc, hws u, hfront u trivial, hskip]
  exact ⟨rfl, rfl⟩

/-- Empty brackets. -/
theorem front_of_empty {c : Char} {cs : List Char} (h : (skipWs cs).head? = some c)
    (hc : numberChar c = false) : ∃ front, cs = front ++ (skipWs cs).tail ∧
      ∀ u, skipWs (front ++ u) = c :: u := by
  cases hcs : skipWs cs with
  | nil =>
      rw [hcs] at h
      cases h
  | cons d tail =>
      rw [hcs] at h
      obtain rfl : d = c := by simpa using h
      obtain ⟨ws, heq, hws⟩ := skipWs_eq_cons hcs hc
      refine ⟨ws ++ [d], by rw [heq]; simp, fun u => ?_⟩
      rw [List.append_assoc]
      exact (hws u).1

/-- What is read of an object does not depend on what comes after it, and what is
read of another value depends on it only where characters of a number come. -/
theorem front_of_parseValue (n : ℕ) : ∀ {c : Char} {cs rest : List Char} {v : Json fl.F},
    parseValue fl n (c :: cs) = some (v, rest) → ∃ front, front ≠ [] ∧ c :: cs = front ++ rest ∧
      ∀ u, Follow u ∨ c = '{' → parseValue fl n (front ++ u) = some (v, u) := by
  induction n with
  | zero =>
      intro c cs rest v h
      cases h
  | succ n ih =>
      intro c cs rest v h
      have hread : SelfDelimiting Follow (parseValue fl n) := by
        intro cs v rest h
        cases cs with
        | nil => cases n <;> cases h
        | cons c cs =>
            obtain ⟨front, hne, hcs, hfront⟩ := ih h
            exact ⟨front, hne, hcs, fun u hu => hfront u (.inl hu)⟩
      rw [parseValue] at h
      split at h
      next hc =>
        subst hc
        obtain ⟨⟨us, r⟩, hus, heq⟩ := Option.map_eq_some_iff.mp h
        obtain ⟨rfl, rfl⟩ := Prod.mk.inj heq
        obtain ⟨front, -, rfl, hfront⟩ := selfDelimiting_scanString hus
        refine ⟨'"' :: front, by simp, by simp, fun u _ => ?_⟩
        rw [List.cons_append, parseValue, if_pos rfl, hfront u trivial]
        rfl
      next hquote =>
        split at h
        next hc =>
          subst hc
          split at h
          next hempty =>
            obtain ⟨rfl, rfl⟩ := Prod.mk.inj (Option.some.inj h)
            obtain ⟨front, hcs, hfront⟩ := front_of_empty hempty rfl
            refine ⟨'[' :: front, by simp, by rw [List.cons_append, ← hcs], fun u _ => ?_⟩
            rw [List.cons_append, parseValue, if_neg hquote, if_pos rfl, hfront u]
            rfl
          next hempty =>
            obtain ⟨front, hcs, hfront⟩ := front_of_bracket (f := Json.arr)
              (selfDelimiting_parseList hread rfl n) h
            refine ⟨'[' :: front, by simp, by rw [List.cons_append, ← hcs], fun u _ => ?_⟩
            rw [List.cons_append, parseValue, if_neg hquote, if_pos rfl, (hfront u).1,
              if_neg hempty]
            exact (hfront u).2
        next hbracket =>
          split at h
          next hc =>
            subst hc
            split at h
            next hempty =>
              obtain ⟨rfl, rfl⟩ := Prod.mk.inj (Option.some.inj h)
              obtain ⟨front, hcs, hfront⟩ := front_of_empty hempty rfl
              refine ⟨'{' :: front, by simp, by rw [List.cons_append, ← hcs], fun u _ => ?_⟩
              rw [List.cons_append, parseValue, if_neg hquote, if_neg hbracket, if_pos rfl,
                hfront u]
              rfl
            next hempty =>
              obtain ⟨front, hcs, hfront⟩ := front_of_bracket (f := Json.obj)
                (selfDelimiting_parseList (selfDelimiting_parseMember hread) rfl n) h
              refine ⟨'{' :: front, by simp, by rw [List.cons_append, ← hcs], fun u _ => ?_⟩
              rw [List.cons_append, parseValue, if_neg hquote, if_neg hbracket, if_pos rfl,
                (hfront u).1, if_neg hempty]
              exact (hfront u).2
          next hbrace =>
            obtain ⟨front, hne, hcs, hfront⟩ := selfDelimiting_parseAtom fl h
            obtain ⟨d, front, rfl⟩ := List.exists_cons_of_ne_nil hne
            have hhead : c :: cs = d :: (front ++ rest) := hcs
            obtain rfl := (List.cons.inj hhead).1
            refine ⟨c :: front, hne, hcs, fun u hu => ?_⟩
            rw [List.cons_append, parseValue, if_neg hquote, if_neg hbracket, if_neg hbrace]
            exact hfront u (hu.resolve_right hbrace)

theorem selfDelimiting_parseValue (n : ℕ) : SelfDelimiting Follow (parseValue fl n) := by
  intro cs v rest h
  cases cs with
  | nil => cases n <;> cases h
  | cons c cs =>
      obtain ⟨front, hne, hcs, hfront⟩ := front_of_parseValue fl n h
      exact ⟨front, hne, hcs, fun u hu => hfront u (.inl hu)⟩

/-! ## The fuel -/

theorem length_skipWs_le (cs : List Char) : (skipWs cs).length ≤ cs.length :=
  (List.dropWhile_suffix _).length_le

/-- A text is longer than what stands behind a bracket in it. -/
theorem length_skipWs_lt {c : Char} {cs rest : List Char} (h : skipWs cs = c :: rest) :
    (skipWs rest).length < cs.length := by
  have hcs := length_skipWs_le cs
  have hrest := length_skipWs_le rest
  rw [h, List.length_cons] at hcs
  omega

/-- Two readers that agree on what is not longer than a text read the same list
from it. -/
theorem parseList_congr {α : Type} {read read' : List Char → Option (α × List Char)} {close : Char}
    {N n m : ℕ} (hread : SelfDelimiting Follow read)
    (h : ∀ cs : List Char, cs.length < N → read cs = read' cs) {cs : List Char}
    (hcs : cs.length < N) (hn : cs.length < n) (hm : cs.length < m) :
    parseList read close n cs = parseList read' close m cs := by
  induction n generalizing m cs with
  | zero => omega
  | succ n ih =>
      cases m with
      | zero => omega
      | succ m =>
          rw [parseList, parseList, ← h cs hcs]
          refine Option.bind_congr fun p hp => ?_
          have hlt := hread.length_lt hp
          cases hskip : skipWs p.2 with
          | nil => rfl
          | cons c rest =>
              dsimp only
              have hrest := length_skipWs_lt hskip
              rw [ih (m := m) (by omega) (by omega) (by omega)]

theorem parseMember_congr {α : Type} {read read' : List Char → Option (α × List Char)}
    {cs : List Char} (h : ∀ ds : List Char, ds.length < cs.length → read ds = read' ds) :
    parseMember read cs = parseMember read' cs := by
  cases cs with
  | nil => rfl
  | cons q cs =>
      rw [parseMember, parseMember]
      split
      next =>
        refine Option.bind_congr fun k hk => ?_
        have hlt := selfDelimiting_scanString.length_lt hk
        cases hskip : skipWs k.2 with
        | nil => rfl
        | cons c rest =>
            have hrest := length_skipWs_lt hskip
            dsimp only
            rw [h _ (by rw [List.length_cons]; omega)]
      next => rfl

/-- A text has fewer values than characters, so more fuel than that changes
nothing. -/
theorem parseValue_fuel {n m : ℕ} {cs : List Char} (hn : cs.length < n) (hm : cs.length < m) :
    parseValue fl n cs = parseValue fl m cs := by
  induction n generalizing m cs with
  | zero => omega
  | succ n ih =>
      cases m with
      | zero => omega
      | succ m =>
          cases cs with
          | nil => rfl
          | cons c cs =>
              rw [List.length_cons] at hn hm
              have hskip := length_skipWs_le cs
              have hvalue : ∀ ds : List Char, ds.length < (skipWs cs).length + 1 →
                  parseValue fl n ds = parseValue fl m ds := fun ds hds =>
                ih (by omega) (by omega)
              have hitems : parseList (parseValue fl n) ']' n (skipWs cs) =
                  parseList (parseValue fl m) ']' m (skipWs cs) :=
                parseList_congr (selfDelimiting_parseValue fl n) hvalue (Nat.lt_succ_self _)
                  (by omega) (by omega)
              have hmembers : parseList (parseMember (parseValue fl n)) '}' n (skipWs cs) =
                  parseList (parseMember (parseValue fl m)) '}' m (skipWs cs) :=
                parseList_congr (selfDelimiting_parseMember (selfDelimiting_parseValue fl n))
                  (fun ds hds => parseMember_congr fun es hes => hvalue es (by omega))
                  (Nat.lt_succ_self _) (by omega) (by omega)
              rw [parseValue, parseValue, hitems, hmembers]

/-! ## What is written is read back -/

theorem toDigits_head {n : ℕ} (h : n ≠ 0) : (Nat.toDigits 10 n).head? ≠ some '0' := by
  induction n using Nat.strong_induction_on with
  | _ n ih =>
      by_cases hlt : n < 10
      · rw [Nat.toDigits_of_lt_base hlt]
        interval_cases n <;> first | exact absurd rfl h | decide
      · rw [Nat.toDigits_of_base_le (by decide) (not_lt.mp hlt)]
        have hdiv : n / 10 ≠ 0 := by omega
        have hhead := ih (n / 10) (by omega) hdiv
        rw [List.head?_append_of_ne_nil _ Nat.toDigits_ne_nil]
        exact hhead

theorem naturalOf_toDigits (n : ℕ) : naturalOf (Nat.toDigits 10 n) = some n := by
  have hnull : ¬(Nat.toDigits 10 n = [] ∨
      (Nat.toDigits 10 n).head? = some '0' ∧ Nat.toDigits 10 n ≠ ['0']) := by
    rintro (h | ⟨h, hne⟩)
    · exact Nat.toDigits_ne_nil h
    · by_cases hn : n = 0
      · subst hn
        exact hne (Nat.toDigits_zero 10)
      · exact toDigits_head hn h
  rw [naturalOf, if_neg hnull, Nat.ofDigitChars_ten_toDigits]

theorem isDigit_of_mem_toDigits {n : ℕ} {c : Char} (h : c ∈ Nat.toDigits 10 n) :
    c.isDigit = true :=
  Nat.isDigit_of_mem_toDigits (by decide) (by decide) h

theorem takeWhile_digits {ds : List Char} (h : ∀ c ∈ ds, c.isDigit = true) :
    ds.takeWhile Char.isDigit = ds ∧ ds.dropWhile Char.isDigit = [] :=
  ⟨List.takeWhile_eq_self_iff.mpr h, List.dropWhile_eq_nil_iff.mpr h⟩

/-- An integer is read back. -/
theorem parseNumber_intText {F : Type} (ofText : List Char → F) (n : ℤ) :
    parseNumber ofText (intText n) = some (.int n) := by
  obtain ⟨htake, hdrop⟩ := takeWhile_digits fun c => isDigit_of_mem_toDigits (n := n.natAbs)
  unfold parseNumber intText
  split
  next hneg =>
    simp only [splitSign, if_true, htake, hdrop, naturalOf_toDigits, Option.bind_some]
    congr 2
    omega
  next hpos =>
    have hsign : splitSign (Nat.toDigits 10 n.natAbs) = (false, Nat.toDigits 10 n.natAbs) := by
      cases hds : Nat.toDigits 10 n.natAbs with
      | nil => rfl
      | cons d ds =>
          have hd : d.isDigit = true := isDigit_of_mem_toDigits (hds ▸ List.mem_cons_self)
          have hne : d ≠ '-' := fun heq => by
            rw [heq] at hd
            cases hd
          exact if_neg hne
    simp only [hsign, htake, hdrop, naturalOf_toDigits, Option.bind_some, if_true]
    congr 2
    simp only [Bool.false_eq_true, if_false]
    omega

theorem numberChar_intText (n : ℤ) : ∀ c ∈ intText n, numberChar c = true := by
  intro c hc
  unfold intText at hc
  split at hc
  next =>
    rcases List.mem_cons.mp hc with rfl | hc
    · rfl
    · exact numberChar_of_isDigit (isDigit_of_mem_toDigits hc)
  next => exact numberChar_of_isDigit (isDigit_of_mem_toDigits hc)

/-- A number with a fraction or an exponent is read by `Floats`. -/
theorem parseNumber_of_isFloatLiteral {cs : List Char} (h : isFloatLiteral cs = true) :
    parseNumber fl.ofText cs = some (.float (fl.ofText cs)) ∧ ∀ c ∈ cs, numberChar c = true := by
  simp only [isFloatLiteral, Bool.and_eq_true] at h
  obtain ⟨⟨hall, hnat⟩, hfrac⟩ := h
  obtain ⟨n, hn⟩ := Option.isSome_iff_exists.mp hnat
  refine ⟨?_, fun c hc => List.all_eq_true.mp hall c hc⟩
  have hne : (splitSign cs).2.dropWhile Char.isDigit ≠ [] := fun heq => by
    rw [heq] at hfrac
    cases hfrac
  simp only [parseNumber, hn, Option.bind_some, if_neg hne, hfrac, if_true]

/-- A text is read as a value when no character of a number follows, and begins
with neither a blank nor a closing bracket. -/
structure Reads {α : Type} (read : List Char → Option (α × List Char)) (t : List Char) (a : α) :
    Prop where
  head : ∃ c t', t = c :: t' ∧ isWs c = false ∧ c ≠ ']' ∧ c ≠ '}'
  eq : ∀ u, Follow u → read (t ++ u) = some (a, u)

theorem Reads.skipWs {α : Type} {read : List Char → Option (α × List Char)} {t : List Char} {a : α}
    (h : Reads read t a) (u : List Char) : skipWs (t ++ u) = t ++ u := by
  obtain ⟨c, t', rfl, hc, -⟩ := h.head
  exact skipWs_of_head hc _

/-- A list of parts is read back. -/
theorem parseList_joined {α : Type} {read : List Char → Option (α × List Char)} {close : Char}
    (hclose : isWs close = false) (hnumber : numberChar close = false) (hcomma : close ≠ ',')
    {ts : List (List Char)} {as : List α} (h : List.Forall₂ (Reads read) ts as) (hne : ts ≠ [])
    {n : ℕ} (hn : ts.length ≤ n) (u : List Char) :
    parseList read close n (joined close ts ++ u) = some (as, u) := by
  induction h generalizing n with
  | nil => exact absurd rfl hne
  | @cons t a ts as ht hts ih =>
      cases n with
      | zero => simp at hn
      | succ n =>
          cases hts with
          | nil =>
              have hfollow : Follow (close :: u) := by
                intro c hc
                obtain rfl : close = c := by simpa using hc
                exact hnumber
              rw [joined, List.append_assoc, List.singleton_append, parseList, ht.eq _ hfollow,
                Option.bind_some]
              dsimp only
              rw [skipWs_of_head hclose]
              dsimp only
              rw [if_pos rfl]
          | @cons t' a' ts as ht' hts =>
              have hfollow (cs : List Char) : Follow (',' :: cs) := by
                intro c hc
                obtain rfl : ',' = c := by simpa using hc
                rfl
              have hlist : ∃ cs, joined close (t' :: ts) = t' ++ cs := by
                cases ts with
                | nil => exact ⟨_, rfl⟩
                | cons t'' ts => exact ⟨_, rfl⟩
              obtain ⟨cs, hcs⟩ := hlist
              have hblank : skipWs (' ' :: (joined close (t' :: ts) ++ u)) =
                  joined close (t' :: ts) ++ u := by
                rw [hcs, List.append_assoc]
                exact ht'.skipWs _
              rw [joined, List.append_assoc, parseList, List.cons_append, ht.eq _ (hfollow _),
                Option.bind_some]
              dsimp only
              rw [skipWs_of_head rfl]
              dsimp only
              rw [if_neg hcomma.symm, if_pos rfl, List.cons_append, hblank,
                ih (by simp) (Nat.le_of_succ_le_succ hn)]
              rfl

theorem joined_head {α : Type} {read : List Char → Option (α × List Char)} (close : Char)
    {t : List Char} (ts : List (List Char)) {a : α} (h : Reads read t a) (u : List Char) :
    skipWs (joined close (t :: ts) ++ u) = joined close (t :: ts) ++ u ∧
      (joined close (t :: ts) ++ u).head? ≠ some ']' ∧
      (joined close (t :: ts) ++ u).head? ≠ some '}' := by
  have hlist : ∃ cs, joined close (t :: ts) = t ++ cs := by
    cases ts with
    | nil => exact ⟨_, rfl⟩
    | cons t' ts => exact ⟨_, rfl⟩
  obtain ⟨cs, hcs⟩ := hlist
  obtain ⟨c, t', rfl, hc, hbracket, hbrace⟩ := h.head
  rw [hcs]
  exact ⟨skipWs_of_head hc _, by simp [hbracket], by simp [hbrace]⟩

/-- A member is read back when its value is. -/
theorem reads_parseMember {α : Type} {read : List Char → Option (α × List Char)} {t : List Char}
    {a : α} (h : Reads read t a) (k : List CodeUnit) :
    Reads (parseMember read) ('"' :: (stringRest k ++ ':' :: ' ' :: t)) (k, a) where
  head := ⟨'"', _, rfl, rfl, by decide, by decide⟩
  eq := by
    intro u hu
    have hblank : skipWs (' ' :: (t ++ u)) = t ++ u := h.skipWs u
    rw [List.cons_append, parseMember, if_pos rfl, List.append_assoc, scanString_stringRest,
      Option.bind_some]
    dsimp only
    rw [List.cons_append, List.cons_append, skipWs_of_head rfl]
    dsimp only
    rw [if_pos rfl, hblank, h.eq u hu]
    rfl

theorem reads_atom {v : Json fl.F} {t : List Char} {c : Char} {t' : List Char} (ht : t = c :: t')
    (hc : isWs c = false ∧ c ≠ '"' ∧ c ≠ '[' ∧ c ≠ '{' ∧ c ≠ ']' ∧ c ≠ '}')
    (h : ∀ u, Follow u → parseAtom fl (t ++ u) = some (v, u)) (n : ℕ) :
    Reads (parseValue fl (n + 1)) t v where
  head := ⟨c, t', ht, hc.1, hc.2.2.2.2.1, hc.2.2.2.2.2⟩
  eq := by
    intro u hu
    subst ht
    rw [List.cons_append, parseValue, if_neg hc.2.1, if_neg hc.2.2.1, if_neg hc.2.2.2.1]
    exact h u hu

/-- Numbers begin with a digit or a sign. -/
theorem reads_number {v : Json fl.F} {t : List Char} (hv : parseNumber fl.ofText t = some v)
    (hall : ∀ c ∈ t, numberChar c = true) (n : ℕ) : Reads (parseValue fl (n + 1)) t v := by
  obtain ⟨d, ds, hd, ht⟩ := head_of_parseNumber hv
  have hne (c : Char) (hc : c.isDigit = false) : d ≠ c := fun heq => by
    rw [heq, hc] at hd
    cases hd
  have hws : isWs d = false := by
    simp [isWs, hne ' ' rfl, hne '\t' rfl, hne '\n' rfl, hne '\r' rfl]
  have hread : ∀ u, Follow u → parseAtom fl (t ++ u) = some (v, u) := fun u hu =>
    parseAtom_number fl hv hall hu
  rcases ht with ht | ht
  · exact reads_atom fl ht ⟨hws, hne _ rfl, hne _ rfl, hne _ rfl, hne _ rfl, hne _ rfl⟩ hread n
  · exact reads_atom fl ht (by decide) hread n

theorem reads_float (x : fl.F) (n : ℕ) :
    Reads (parseValue fl (n + 1)) (fl.text x) (.float x) := by
  rcases fl.text_shape x with h | h
  · have hread : ∀ u, Follow u → parseAtom fl (fl.text x ++ u) = some (.float x, u) := by
      intro u _
      rw [parseAtom_special fl h, fl.ofText_text]
    simp only [specials, List.mem_cons, List.not_mem_nil, or_false] at h
    rcases h with h | h | h
    · exact reads_atom fl h (by decide) hread n
    · exact reads_atom fl h (by decide) hread n
    · exact reads_atom fl h (by decide) hread n
  · obtain ⟨hnumber, hall⟩ := parseNumber_of_isFloatLiteral fl h
    rw [fl.ofText_text] at hnumber
    exact reads_number fl hnumber hall n

theorem reads_arr {n : ℕ} {xs : List (Json fl.F)}
    (h : List.Forall₂ (Reads (parseValue fl n)) (printItems fl xs) xs) (hn : xs.length ≤ n) :
    Reads (parseValue fl (n + 1)) (print fl (.arr xs)) (.arr xs) where
  head := ⟨'[', _, by rw [print], rfl, by decide, by decide⟩
  eq := by
    intro u _
    rw [print, List.cons_append, parseValue, if_neg (by decide), if_pos rfl]
    cases xs with
    | nil =>
        rw [printItems, joined, List.singleton_append, skipWs_of_head rfl]
        rfl
    | cons v xs =>
        rw [printItems] at h ⊢
        cases h with
        | cons hv hxs =>
            obtain ⟨hskip, hhead, -⟩ := joined_head ']' (printItems fl xs) hv u
            have hlen : (print fl v :: printItems fl xs).length ≤ n := by
              rwa [List.length_cons, hxs.length_eq, ← List.length_cons (a := v)]
            rw [hskip, if_neg hhead,
              parseList_joined rfl rfl (by decide) (.cons hv hxs) (List.cons_ne_nil _ _) hlen]
            rfl

theorem reads_obj {n : ℕ} {ms : List (List CodeUnit × Json fl.F)}
    (h : List.Forall₂ (Reads (parseMember (parseValue fl n))) (printMembers fl ms) ms)
    (hn : ms.length ≤ n) : Reads (parseValue fl (n + 1)) (print fl (.obj ms)) (.obj ms) where
  head := ⟨'{', _, by rw [print], rfl, by decide, by decide⟩
  eq := by
    intro u _
    rw [print, List.cons_append, parseValue, if_neg (by decide), if_neg (by decide), if_pos rfl]
    cases ms with
    | nil =>
        rw [printMembers, joined, List.singleton_append, skipWs_of_head rfl]
        rfl
    | cons m ms =>
        rw [printMembers] at h ⊢
        cases h with
        | cons hm hms =>
            obtain ⟨hskip, -, hhead⟩ := joined_head '}' (printMembers fl ms) hm u
            have hlen := (List.Forall₂.cons hm hms).length_eq.trans_le hn
            rw [hskip, if_neg hhead,
              parseList_joined rfl rfl (by decide) (.cons hm hms) (List.cons_ne_nil _ _) hlen]
            rfl

mutual

/-- What is written for a value is read as the value, with enough fuel. -/
theorem reads_print : ∀ v : Json fl.F, ∃ k, ∀ n, k ≤ n → Reads (parseValue fl n) (print fl v) v
  | .null => by
      refine ⟨1, fun n hn => ?_⟩
      obtain ⟨n, rfl⟩ := Nat.exists_eq_succ_of_ne_zero (Nat.one_le_iff_ne_zero.mp hn)
      rw [print]
      exact reads_atom fl (c := 'n') rfl (by decide) (fun u _ => parseAtom_null fl u) n
  | .bool true => by
      refine ⟨1, fun n hn => ?_⟩
      obtain ⟨n, rfl⟩ := Nat.exists_eq_succ_of_ne_zero (Nat.one_le_iff_ne_zero.mp hn)
      rw [print]
      exact reads_atom fl (c := 't') rfl (by decide) (fun u _ => parseAtom_true fl u) n
  | .bool false => by
      refine ⟨1, fun n hn => ?_⟩
      obtain ⟨n, rfl⟩ := Nat.exists_eq_succ_of_ne_zero (Nat.one_le_iff_ne_zero.mp hn)
      rw [print]
      exact reads_atom fl (c := 'f') rfl (by decide) (fun u _ => parseAtom_false fl u) n
  | .int i => by
      refine ⟨1, fun n hn => ?_⟩
      obtain ⟨n, rfl⟩ := Nat.exists_eq_succ_of_ne_zero (Nat.one_le_iff_ne_zero.mp hn)
      rw [print]
      exact reads_number fl (parseNumber_intText _ i) (numberChar_intText i) n
  | .float x => by
      refine ⟨1, fun n hn => ?_⟩
      obtain ⟨n, rfl⟩ := Nat.exists_eq_succ_of_ne_zero (Nat.one_le_iff_ne_zero.mp hn)
      rw [print]
      exact reads_float fl x n
  | .str us => by
      refine ⟨1, fun n hn => ⟨⟨'"', _, by rw [print], rfl, by decide, by decide⟩, fun u _ => ?_⟩⟩
      obtain ⟨n, rfl⟩ := Nat.exists_eq_succ_of_ne_zero (Nat.one_le_iff_ne_zero.mp hn)
      rw [print, List.cons_append, parseValue, if_pos rfl, scanString_stringRest]
      rfl
  | .arr xs => by
      obtain ⟨k, hk⟩ := reads_printItems xs
      refine ⟨max k xs.length + 1, fun n hn => ?_⟩
      obtain ⟨n, rfl⟩ := Nat.exists_eq_succ_of_ne_zero (by omega : n ≠ 0)
      exact reads_arr fl (hk n (by omega)) (by omega)
  | .obj ms => by
      obtain ⟨k, hk⟩ := reads_printMembers ms
      refine ⟨max k ms.length + 1, fun n hn => ?_⟩
      obtain ⟨n, rfl⟩ := Nat.exists_eq_succ_of_ne_zero (by omega : n ≠ 0)
      exact reads_obj fl (hk n (by omega)) (by omega)

theorem reads_printItems : ∀ xs : List (Json fl.F), ∃ k, ∀ n, k ≤ n →
    List.Forall₂ (Reads (parseValue fl n)) (printItems fl xs) xs
  | [] => ⟨0, fun _ _ => by rw [printItems]; exact .nil⟩
  | v :: xs => by
      obtain ⟨k, hk⟩ := reads_print v
      obtain ⟨k', hk'⟩ := reads_printItems xs
      refine ⟨max k k', fun n hn => ?_⟩
      rw [printItems]
      exact .cons (hk n (by omega)) (hk' n (by omega))

theorem reads_printMembers : ∀ ms : List (List CodeUnit × Json fl.F), ∃ k, ∀ n, k ≤ n →
    List.Forall₂ (Reads (parseMember (parseValue fl n))) (printMembers fl ms) ms
  | [] => ⟨0, fun _ _ => by rw [printMembers]; exact .nil⟩
  | (key, v) :: ms => by
      obtain ⟨k, hk⟩ := reads_print v
      obtain ⟨k', hk'⟩ := reads_printMembers ms
      refine ⟨max k k', fun n hn => ?_⟩
      rw [printMembers]
      exact .cons (reads_parseMember (hk n (by omega)) key) (hk' n (by omega))

end

theorem follow_nil : Follow [] := fun c hc => by cases hc

/-- What is written for a value is read as the value. -/
theorem parseJson_print (v : Json fl.F) : parseJson fl (print fl v) = some v := by
  obtain ⟨k, hk⟩ := reads_print fl v
  have hread := hk (max k ((print fl v).length + 1)) (le_max_left _ _)
  have hvalue := hread.eq [] follow_nil
  have hskip := hread.skipWs []
  rw [List.append_nil] at hvalue hskip
  rw [parseJson, hskip, parseValue_fuel fl (Nat.lt_succ_self _)
    (Nat.lt_of_lt_of_le (Nat.lt_succ_self _) (le_max_right k _)), hvalue]
  rfl

/-- Different values have different texts. -/
theorem print_injective : Function.Injective (print fl) := by
  intro v w h
  have hv := parseJson_print fl v
  rw [h, parseJson_print] at hv
  exact (Option.some.inj hv).symm

/-- A text of an object that is cut off is not read. -/
theorem parseJson_eq_none_of_prefix {ms : List (List CodeUnit × Json fl.F)} {front rest : List Char}
    (h : print fl (.obj ms) = front ++ rest) (hrest : rest ≠ []) : parseJson fl front = none := by
  obtain ⟨k, hk⟩ := reads_print fl (.obj ms)
  have hprint : print fl (.obj ms) = '{' :: joined '}' (printMembers fl ms) := by rw [print]
  cases front with
  | nil => rfl
  | cons c front =>
      obtain rfl : '{' = c := (List.cons.inj (hprint.symm.trans h)).1
      rw [parseJson, skipWs_of_head rfl, Option.bind_eq_none_iff]
      intro p hp
      refine if_neg fun hws => hrest ?_
      have hfuel := parseValue_fuel fl (Nat.lt_succ_self ('{' :: front).length)
        (m := max k (('{' :: front).length + 1)) (by omega)
      rw [hfuel] at hp
      obtain ⟨part, -, hcs, hpart⟩ := front_of_parseValue fl _ hp
      have hlong := hpart (p.2 ++ rest) (.inr rfl)
      rw [← List.append_assoc, ← hcs, ← h] at hlong
      have hread := hk (max k (('{' :: front).length + 1)) (le_max_left _ _)
      have hall := hread.eq [] follow_nil
      rw [List.append_nil, hlong] at hall
      exact (List.append_eq_nil_iff.mp (Prod.mk.inj (Option.some.inj hall)).2).2

end Basis
