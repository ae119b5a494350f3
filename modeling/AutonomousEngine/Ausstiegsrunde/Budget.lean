import AutonomousEngine.Ausstiegsrunde.Hebel

/-!
# The budgets of the exit round

What one lever hands over is described once (`Abgang`): new sales of symbols that
were neither acted on nor booked, of which those that returned are booked.  The
loops of the three levers satisfy it (`rotationRangverlust_rotiert`,
`ueberhangSchleife_abgebaut`, `trimSchleife_getrimmt`), each within its own bound, and
the bounds of a round follow.

A sale that raises is handed over and not booked.  It then counts for no budget of
the day, and another lever may sell the symbol again.  In a run in which no sale
raises every budget holds (`budget_of_zurueck`).
-/

namespace Ausstiegsrunde

open Basis

/-! ## What a lever hands over -/

def zurueck (es : List Ereignis) : List Ereignis := es.filter fun e => !e.geworfen

/-- A lever hands over new sales, and books those that return. -/
structure Abgang (acted : List String) (s s' : Stand) (neu : List Ereignis) : Prop where
  ereignisse : s'.ereignisse = s.ereignisse ++ neu
  exited : s'.exited = s.exited ++ (zurueck neu).map Ereignis.symbol
  session : s'.session = s.session + (zurueck neu).length
  frisch : ∀ e ∈ neu, e.symbol ∉ acted ∧ e.symbol ∉ s.exited
  einmal : (neu.map Ereignis.symbol).Nodup

section

variable {acted : List String} {s s' s'' : Stand} {e : Ereignis} {neu neu' : List Ereignis}

theorem zurueck_eq_self (h : ∀ e ∈ neu, e.geworfen = false) : zurueck neu = neu :=
  List.filter_eq_self.mpr fun e he => by simp [h e he]

theorem Abgang.nil : Abgang acted s s [] :=
  ⟨by simp, by simp [zurueck], by simp [zurueck], fun e he => absurd he List.not_mem_nil, List.nodup_nil⟩

/-- A sale that raises. -/
theorem Abgang.wurf (he : e.geworfen = true) (hacted : e.symbol ∉ acted)
    (hexited : e.symbol ∉ s.exited) : Abgang acted s (s.uebergib e) [e] := by
  have hs : s.uebergib e = { s with ereignisse := s.ereignisse ++ [e] } := if_pos he
  have hnichts : zurueck [e] = [] := by simp [zurueck, he]
  rw [hs]
  refine ⟨rfl, by simp [hnichts], by simp [hnichts], fun e' he' => ?_, List.nodup_singleton _⟩
  obtain rfl := List.mem_singleton.mp he'
  exact ⟨hacted, hexited⟩

/-- A sale that returns, and what follows. -/
theorem Abgang.cons {k : ℕ} (he : e.geworfen = false) (hacted : e.symbol ∉ acted)
    (hexited : e.symbol ∉ s.exited) (h : Abgang acted { s.uebergib e with rotExits := k } s' neu) :
    Abgang acted s s' (e :: neu) := by
  have hs : s.uebergib e =
      { s with
        exited := s.exited ++ [e.symbol], session := s.session + 1
        ereignisse := s.ereignisse ++ [e] } := by
    rw [Stand.uebergib, he]
    rfl
  have hz : zurueck (e :: neu) = e :: zurueck neu := by simp [zurueck, he]
  rw [hs] at h
  have hrest : ∀ e' ∈ neu, e'.symbol ∉ acted ∧ e'.symbol ∉ s.exited ++ [e.symbol] := h.frisch
  constructor
  · rw [h.ereignisse, List.append_assoc]
    rfl
  · rw [h.exited, hz, List.append_assoc]
    rfl
  · have hsession : s'.session = s.session + 1 + (zurueck neu).length := h.session
    rw [hsession, hz, List.length_cons]
    omega
  · intro e' he'
    rcases List.mem_cons.mp he' with rfl | he'
    · exact ⟨hacted, hexited⟩
    · obtain ⟨ha, hx⟩ := hrest e' he'
      exact ⟨ha, fun hmem => hx (List.mem_append_left _ hmem)⟩
  · rw [List.map_cons, List.nodup_cons]
    refine ⟨fun hmem => ?_, h.einmal⟩
    obtain ⟨e', he', hsym⟩ := List.mem_map.mp hmem
    exact (hrest e' he').2 (List.mem_append_right _ (by simp [hsym]))

/-- A lever after one whose sales all returned. -/
theorem Abgang.append (h : Abgang acted s s' neu) (hz : ∀ e ∈ neu, e.geworfen = false)
    (h' : Abgang acted s' s'' neu') : Abgang acted s s'' (neu ++ neu') := by
  have hsplit : zurueck (neu ++ neu') = zurueck neu ++ zurueck neu' := List.filter_append ..
  have hx : s'.exited = s.exited ++ neu.map Ereignis.symbol := by
    rw [h.exited, zurueck_eq_self hz]
  constructor
  · rw [h'.ereignisse, h.ereignisse, List.append_assoc]
  · rw [h'.exited, h.exited, hsplit, List.map_append, List.append_assoc]
  · rw [h'.session, h.session, hsplit, List.length_append, Nat.add_assoc]
  · intro e he
    rcases List.mem_append.mp he with he | he
    · exact h.frisch e he
    · obtain ⟨ha, hn⟩ := h'.frisch e he
      rw [hx] at hn
      exact ⟨ha, fun hmem => hn (List.mem_append_left _ hmem)⟩
  · rw [List.map_append, List.nodup_append]
    refine ⟨h.einmal, h'.einmal, ?_⟩
    intro a ha b hb hab
    obtain ⟨e, he, rfl⟩ := List.mem_map.mp hb
    have hn := (h'.frisch e he).2
    rw [hx] at hn
    exact hn (List.mem_append_right _ (hab ▸ ha))

end

/-! ## Bounds -/

/-- Some more after a number stay in a bound, unless there are none. -/
def ImRahmen (cap : ℤ) (vorher n : ℕ) : Prop := n = 0 ∨ (vorher + n : ℤ) ≤ cap

theorem ImRahmen.null (cap : ℤ) (vorher : ℕ) : ImRahmen cap vorher 0 := .inl rfl

theorem ImRahmen.succ {cap : ℤ} {vorher n : ℕ} (hlt : (vorher : ℤ) < cap)
    (h : ImRahmen cap (vorher + 1) n) : ImRahmen cap vorher (n + 1) := by
  unfold ImRahmen at *
  omega

/-! ## The loop of the rotation -/

section

variable (g : Grenzen) (u : Umfeld) (acted : List String)

/-- What must hold for a full exit of the rotation. -/
structure Darf (s : Stand) (sym : String) : Prop where
  acted : sym ∉ acted
  exited : sym ∉ s.exited
  zyklus : (s.rotExits : ℤ) < u.rotCap
  tag : 0 < g.rotationMaxExitsPerSession → (s.session : ℤ) < g.rotationMaxExitsPerSession

/-- A position is passed over, ends the loop, or is handed over. -/
theorem rotationRangverlust_cons (sym : String) (score : Score) (ps : List (String × Score))
    (s : Stand) :
    rotationRangverlust g u acted ((sym, score) :: ps) s = rotationRangverlust g u acted ps s ∨
    (∃ b, rotationRangverlust g u acted ((sym, score) :: ps) s = (s, b)) ∨
    Darf g u acted s sym ∧
      ((vollerAusstieg u .rotation sym score).geworfen = true ∧
        rotationRangverlust g u acted ((sym, score) :: ps) s =
          (s.uebergib (vollerAusstieg u .rotation sym score), false) ∨
      (vollerAusstieg u .rotation sym score).geworfen = false ∧
        rotationRangverlust g u acted ((sym, score) :: ps) s =
          rotationRangverlust g u acted ps
            { s.uebergib (vollerAusstieg u .rotation sym score) with
              rotExits := s.rotExits + 1 }) := by
  rw [rotationRangverlust]
  split
  next => exact .inl rfl
  next hfrei =>
    rw [not_or] at hfrei
    split
    next => exact .inr (.inl ⟨false, rfl⟩)
    next => exact .inl rfl
    next =>
      split
      next =>
        split
        next => exact .inr (.inl ⟨false, rfl⟩)
        next => exact .inl rfl
        next =>
          split
          next => exact .inr (.inl ⟨true, rfl⟩)
          next hzyklus =>
            split
            next => exact .inr (.inl ⟨true, rfl⟩)
            next htag =>
              refine .inr (.inr ⟨⟨hfrei.1, hfrei.2, not_le.mp hzyklus, fun hcap => ?_⟩, ?_⟩)
              · exact not_le.mp fun hle => htag ⟨hcap, hle⟩
              · cases hwurf : (vollerAusstieg u .rotation sym score).geworfen with
                | true => exact .inl ⟨rfl, if_pos hwurf⟩
                | false => exact .inr ⟨rfl, if_neg (by simp [hwurf])⟩
      next => exact .inl rfl

/-- The rotation stays in its budgets for the round and for the day. -/
structure Rotiert (s : Stand) (r : Stand × Bool) (neu : List Ereignis) : Prop where
  abgang : Abgang acted s r.1 neu
  weg : ∀ e ∈ neu, e.weg = .rotation
  zurueck : r.2 = true → (∀ e ∈ neu, e.geworfen = false) ∧ r.1.rotExits = s.rotExits + neu.length
  zyklus : ImRahmen u.rotCap s.rotExits neu.length
  tag : 0 < g.rotationMaxExitsPerSession →
    ImRahmen g.rotationMaxExitsPerSession s.session neu.length

theorem rotationRangverlust_rotiert (ps : List (String × Score)) (s : Stand) :
    ∃ neu, Rotiert g u acted s (rotationRangverlust g u acted ps s) neu := by
  have hende (s : Stand) (b : Bool) : Rotiert g u acted s (s, b) [] :=
    ⟨.nil, by simp, by simp, .null _ _, fun _ => .null _ _⟩
  induction ps generalizing s with
  | nil => exact ⟨[], hende s true⟩
  | cons p ps ih =>
      obtain ⟨sym, score⟩ := p
      rcases rotationRangverlust_cons g u acted sym score ps s with
        hweiter | ⟨b, hstop⟩ | ⟨hdarf, ⟨hwurf, heq⟩ | ⟨hz, heq⟩⟩
      · rw [hweiter]
        exact ih s
      · rw [hstop]
        exact ⟨[], hende s b⟩
      · rw [heq]
        refine ⟨[vollerAusstieg u .rotation sym score], .wurf hwurf hdarf.acted hdarf.exited, ?_, ?_,
          .succ hdarf.zyklus (.null _ _), fun hcap => .succ (hdarf.tag hcap) (.null _ _)⟩
        · simp [vollerAusstieg]
        · simp
      · rw [heq]
        have hs : (s.uebergib (vollerAusstieg u .rotation sym score)).session = s.session + 1 := by
          rw [Stand.uebergib, hz]
          rfl
        obtain ⟨neu, h⟩ := ih { s.uebergib (vollerAusstieg u .rotation sym score) with
          rotExits := s.rotExits + 1 }
        refine ⟨vollerAusstieg u .rotation sym score :: neu,
          .cons hz hdarf.acted hdarf.exited h.abgang, ?_, fun hr => ⟨?_, ?_⟩,
          .succ hdarf.zyklus h.zyklus, fun hcap => .succ (hdarf.tag hcap) ?_⟩
        · exact List.forall_mem_cons.mpr ⟨rfl, h.weg⟩
        · exact List.forall_mem_cons.mpr ⟨hz, (h.zurueck hr).1⟩
        · rw [(h.zurueck hr).2, List.length_cons]
          show s.rotExits + 1 + neu.length = s.rotExits + (neu.length + 1)
          omega
        · have htag := h.tag hcap
          dsimp only at htag
          rw [hs] at htag
          exact htag

/-! ## The loop of the overflow -/

/-- The overflow hands over what was selected, or less. -/
structure Abgebaut (s s' : Stand) (symbols : List String) (neu : List Ereignis) : Prop where
  abgang : Abgang acted s s' neu
  weg : ∀ e ∈ neu, e.weg = .bookOverflow
  anzahl : neu.length ≤ symbols.length

theorem ueberhangSchleife_abgebaut (symbols : List String) (s : Stand) (hnodup : symbols.Nodup)
    (hfrei : ∀ sym ∈ symbols, sym ∉ acted ∧ sym ∉ s.exited) :
    ∃ neu, Abgebaut acted s (ueberhangSchleife u symbols s).1 symbols neu := by
  induction symbols generalizing s with
  | nil => exact ⟨[], .nil, by simp, le_rfl⟩
  | cons sym symbols ih =>
      obtain ⟨hsym, hnodup⟩ := List.nodup_cons.mp hnodup
      obtain ⟨hfrei, hrest⟩ := List.forall_mem_cons.mp hfrei
      have hweiter : ∃ neu, Abgebaut acted s (ueberhangSchleife u symbols s).1 (sym :: symbols)
          neu := by
        obtain ⟨neu, h⟩ := ih s hnodup hrest
        exact ⟨neu, h.abgang, h.weg, h.anzahl.trans (Nat.le_succ _)⟩
      rw [ueberhangSchleife]
      split
      next => exact ⟨[], .nil, by simp, Nat.zero_le _⟩
      next => exact ⟨[], .nil, by simp, Nat.zero_le _⟩
      next => exact hweiter
      next score _ _ =>
        dsimp only
        split
        next hwurf =>
          refine ⟨[vollerAusstieg u .bookOverflow sym score], .wurf hwurf hfrei.1 hfrei.2, ?_, ?_⟩
          · simp [vollerAusstieg]
          · simp
        next hz =>
          have hz := Bool.eq_false_of_not_eq_true hz
          have hexited : (s.uebergib (vollerAusstieg u .bookOverflow sym score)).exited =
              s.exited ++ [sym] := by
            rw [Stand.uebergib, hz]
            rfl
          have hrest' : ∀ t ∈ symbols, t ∉ acted ∧
              t ∉ (s.uebergib (vollerAusstieg u .bookOverflow sym score)).exited := by
            intro t ht
            rw [hexited]
            refine ⟨(hrest t ht).1, fun hmem => ?_⟩
            rcases List.mem_append.mp hmem with hold | hnew
            · exact (hrest t ht).2 hold
            · exact hsym (List.mem_singleton.mp hnew ▸ ht)
          obtain ⟨neu, h⟩ := ih _ hnodup hrest'
          refine ⟨vollerAusstieg u .bookOverflow sym score :: neu,
            .cons hz hfrei.1 hfrei.2 h.abgang, ?_, ?_⟩
          · exact List.forall_mem_cons.mpr ⟨rfl, h.weg⟩
          · simp only [List.length_cons]
            exact Nat.succ_le_succ h.anzahl

/-! ## What is selected -/

theorem waehlbar_sublist {positions : List (String × Score)} {eligible : List (ℤ × String)}
    (h : waehlbar u positions = some eligible) :
    (eligible.map Prod.snd).Sublist (positions.map Prod.fst) := by
  induction positions generalizing eligible with
  | nil =>
      obtain rfl := Option.some.inj h
      exact .slnil
  | cons p positions ih =>
      obtain ⟨sym, score⟩ := p
      rw [waehlbar] at h
      split at h
      next => exact (ih h).cons _
      next =>
        split at h
        next => cases h
        next => exact (ih h).cons _
        next =>
          obtain ⟨rest, hrest, rfl⟩ := Option.map_eq_some_iff.mp h
          exact (ih hrest).cons_cons _

/-- The selection takes some of the positions, no more than the excess and the
budget. -/
theorem selectOverflowUnwind_spec {positions : List (String × Score)} {maxPositions budget : ℤ}
    {symbols : List String} (hnodup : (positions.map Prod.fst).Nodup)
    (h : selectOverflowUnwind u positions maxPositions budget = some symbols) :
    symbols.Nodup ∧ (∀ sym ∈ symbols, sym ∈ positions.map Prod.fst) ∧
      (symbols.length : ℤ) ≤ max 0 (min (positions.length - maxPositions) budget) := by
  unfold selectOverflowUnwind at h
  dsimp only at h
  split at h
  next =>
    obtain rfl := Option.some.inj h
    exact ⟨List.nodup_nil, by simp, le_max_left _ _⟩
  next hleft =>
    rw [not_or, not_le, not_le] at hleft
    obtain ⟨eligible, heligible, rfl⟩ := Option.map_eq_some_iff.mp h
    have hsub := waehlbar_sublist u heligible
    have hperm := List.perm_insertionSort (fun a b : ℤ × String => b.1 ≤ a.1) eligible
    have htake (n : ℕ) : (((eligible.insertionSort fun a b => b.1 ≤ a.1).take n).map
        Prod.snd).Subperm (positions.map Prod.fst) :=
      (((List.take_sublist n _).map _).subperm.trans (hperm.map _).subperm).trans hsub.subperm
    obtain ⟨taken, hsame, hpart⟩ :=
      htake (min (min (positions.length - maxPositions) budget) eligible.length).toNat
    refine ⟨hsame.nodup_iff.mp (hnodup.sublist hpart),
      fun sym hsym => hpart.subset (hsame.mem_iff.mpr hsym), ?_⟩
    rw [List.length_map, List.length_take]
    omega

/-- The overflow stays in the excess and in what is left of the budgets. -/
theorem rotationUeberhang_abgebaut (s : Stand) :
    ∃ neu, Abgang acted s (rotationUeberhang g u acted s).1 neu ∧
      (∀ e ∈ neu, e.weg = .bookOverflow) ∧
      (neu.length : ℤ) ≤ max 0 (u.held.entries.length - u.cap) ∧
      (neu.length : ℤ) ≤ ueberhangBudget g u s := by
  have hbudget : 0 ≤ ueberhangBudget g u s := by
    unfold ueberhangBudget
    dsimp only
    split <;> omega
  unfold rotationUeberhang
  split
  next =>
    dsimp only
    split
    next => exact ⟨[], .nil, by simp, by simp, by simpa using hbudget⟩
    next symbols hselect =>
      have hfilter := List.filter_sublist (l := u.held.entries)
        (p := fun p => decide (p.1 ∉ acted ∧ p.1 ∉ s.exited))
      obtain ⟨hnodup, hmem, hlength⟩ :=
        selectOverflowUnwind_spec u (u.held.nodup.sublist (hfilter.map _)) hselect
      have hfrei : ∀ sym ∈ symbols, sym ∉ acted ∧ sym ∉ s.exited := by
        intro sym hsym
        obtain ⟨p, hp, rfl⟩ := List.mem_map.mp (hmem sym hsym)
        exact of_decide_eq_true (List.mem_filter.mp hp).2
      obtain ⟨neu, h⟩ := ueberhangSchleife_abgebaut u acted symbols s hnodup hfrei
      have hanzahl : (neu.length : ℤ) ≤ symbols.length := by exact_mod_cast h.anzahl
      have hfewer : (((u.held.entries.filter fun p => decide (p.1 ∉ acted ∧ p.1 ∉ s.exited)).length :
          ℕ) : ℤ) ≤ u.held.entries.length := by exact_mod_cast hfilter.length_le
      refine ⟨neu, h.abgang, h.weg, ?_, ?_⟩
      · omega
      · omega
  next => exact ⟨[], .nil, by simp, by simp, by simpa using hbudget⟩

/-! ## The loop of the trim -/

/-- The trims sell a part of what is held, and stay in their budget for the day. -/
structure Getrimmt (s s' : Stand) (neu : List Ereignis) : Prop where
  abgang : Abgang acted s s' neu
  weg : ∀ e ∈ neu, e.weg = .trim
  menge : ∀ e ∈ neu, 0 < e.suggestedQuantity ∧ e.suggestedQuantity ≤ e.positionQty
  tag : 0 < g.trimMaxExitsPerSession → ImRahmen g.trimMaxExitsPerSession s.session neu.length

/-- A recommendation that trims is for a symbol that was not acted on, and its
quantity is a part of what is held. -/
theorem trimmt_eq_some {rec : Empfehlung} {exited : List String} {score : Score}
    (h : trimmt u acted rec exited = some score) :
    rec.symbol ∉ acted ∧ rec.symbol ∉ exited ∧ 0 < trimQty rec score ∧
      trimQty rec score ≤ score.qty := by
  unfold trimmt at h
  split at h
  next => cases h
  next hnicht =>
    rw [not_or, not_or, not_or] at hnicht
    obtain ⟨-, hscore⟩ := Option.filter_eq_some_iff.mp h
    simp only [Bool.and_eq_true, Bool.not_eq_true', decide_eq_false_iff_not, not_le] at hscore
    obtain ⟨⟨hqty, htrim⟩, -⟩ := hscore
    refine ⟨hnicht.2.1, hnicht.2.2.1, htrim, ?_⟩
    exact mul_le_of_le_one_right hqty.le (min_le_left _ _)

theorem trimSchleife_getrimmt (recs : List Empfehlung) (s : Stand) :
    ∃ neu, Getrimmt g acted s (trimSchleife g u acted recs s) neu := by
  have hende (s : Stand) : Getrimmt g acted s s [] :=
    ⟨.nil, by simp, by simp, fun _ => .null _ _⟩
  induction recs generalizing s with
  | nil => exact ⟨[], hende s⟩
  | cons rec recs ih =>
      rw [trimSchleife]
      split
      next => exact ⟨[], hende s⟩
      next hcap =>
        have htag : 0 < g.trimMaxExitsPerSession →
            (s.session : ℤ) < g.trimMaxExitsPerSession :=
          fun hpos => not_le.mp fun hle => hcap ⟨hpos, hle⟩
        split
        next => exact ih s
        next score hscore =>
          obtain ⟨hacted, hexited, hpos, hle⟩ := trimmt_eq_some u acted hscore
          split
          next => exact ⟨[], hende s⟩
          next => exact ih s
          next =>
            dsimp only
            split
            next hwurf =>
              refine ⟨[teilverkauf rec score], .wurf hwurf hacted hexited, ?_, ?_,
                fun hcap => .succ (htag hcap) (.null _ _)⟩
              · simp [teilverkauf]
              · exact List.forall_mem_singleton.mpr ⟨hpos, hle⟩
            next hz =>
              have hz := Bool.eq_false_of_not_eq_true hz
              have hs : (s.uebergib (teilverkauf rec score)).session = s.session + 1 := by
                rw [Stand.uebergib, hz]
                rfl
              obtain ⟨neu, h⟩ := ih (s.uebergib (teilverkauf rec score))
              refine ⟨teilverkauf rec score :: neu, .cons hz hacted hexited h.abgang,
                List.forall_mem_cons.mpr ⟨rfl, h.weg⟩,
                List.forall_mem_cons.mpr ⟨⟨hpos, hle⟩, h.menge⟩,
                fun hcap => .succ (htag hcap) ?_⟩
              rw [← hs]
              exact h.tag hcap

end

/-! ## A round -/

section

variable (g : Grenzen) (u : Umfeld)

/-- The full exits of a round, from a number of them on the day. -/
structure Vollverkauft (session : ℕ) (s : Stand) (neu : List Ereignis) : Prop where
  abgang : Abgang u.alreadyActed (.zuBeginn session) s neu
  voll : ∀ e ∈ neu, e.voll = true
  zyklus : (neu.length : ℤ) ≤ u.rotCap
  tag : 0 < g.rotationMaxExitsPerSession →
    ImRahmen g.rotationMaxExitsPerSession session neu.length
  ueberhang : (neu.countP (·.weg = .bookOverflow) : ℤ) ≤ max 0 (u.held.entries.length - u.cap)

theorem rotCap_pos : 1 ≤ u.rotCap := le_max_left _ _

theorem Rotiert.vollverkauft {session : ℕ} {r : Stand × Bool} {neu : List Ereignis}
    (h : Rotiert g u u.alreadyActed (.zuBeginn session) r neu) :
    Vollverkauft g u session r.1 neu where
  abgang := h.abgang
  voll := fun e he => by simp [Ereignis.voll, h.weg e he]
  zyklus := by
    have hcap := rotCap_pos u
    rcases h.zyklus with hnull | hle
    · rw [hnull]
      omega
    · simpa [Stand.zuBeginn] using hle
  tag := h.tag
  ueberhang := by
    have hkein : neu.countP (·.weg = .bookOverflow) = 0 :=
      List.countP_eq_zero.mpr fun e he => by simp [h.weg e he]
    rw [hkein]
    exact le_max_left _ _

/-- Rotation and overflow together stay in the budgets of the rotation. -/
theorem rotationHebel_vollverkauft (session : ℕ) :
    ∃ neu, Vollverkauft g u session (rotationHebel g u session) neu := by
  obtain ⟨neu, h⟩ := rotationRangverlust_rotiert g u u.alreadyActed u.positionScores.entries
    (.zuBeginn session)
  unfold rotationHebel
  generalize rotationRangverlust g u u.alreadyActed u.positionScores.entries (.zuBeginn session) =
    r at h
  have hrotation := h.vollverkauft
  obtain ⟨s, returns⟩ := r
  cases returns with
  | false => exact ⟨neu, hrotation⟩
  | true =>
      dsimp only
      split
      next =>
        obtain ⟨weiter, habgang, hweg, hueberhang, hbudget⟩ :=
          rotationUeberhang_abgebaut g u u.alreadyActed s
        obtain ⟨hz, hrot⟩ := h.zurueck rfl
        have hrotExits : s.rotExits = neu.length := by simpa [Stand.zuBeginn] using hrot
        have hsession : s.session = session + neu.length := by
          have hs := h.abgang.session
          rw [zurueck_eq_self hz] at hs
          exact hs
        have hcap := rotCap_pos u
        have hzyklus := hrotation.zyklus
        simp only [ueberhangBudget, hrotExits, hsession] at hbudget
        refine ⟨neu ++ weiter, h.abgang.append hz habgang, ?_, ?_, fun hpos => ?_, ?_⟩
        · intro e he
          rcases List.mem_append.mp he with he | he
          · exact hrotation.voll e he
          · simp [Ereignis.voll, hweg e he]
        · rw [List.length_append]
          push_cast
          omega
        · rw [if_pos hpos] at hbudget
          have htag := hrotation.tag hpos
          unfold ImRahmen at htag ⊢
          rw [List.length_append]
          push_cast at hbudget ⊢
          omega
        · have hneu : neu.countP (·.weg = .bookOverflow) = 0 :=
            List.countP_eq_zero.mpr fun e he => by simp [h.weg e he]
          have hweiter : weiter.countP (·.weg = .bookOverflow) = weiter.length :=
            List.countP_eq_length.mpr fun e he => by simp [hweg e he]
          rw [List.countP_append, hneu, hweiter, zero_add]
          exact hueberhang
      next => exact ⟨neu, hrotation⟩

/-- What a counter of the day does in a round with some sales: it is left when there
are none, or counts those that returned. -/
def Zaehlt (cap : ℤ) (heute : ℤ) (z z' : Tageszaehler) (neu : List Ereignis) : Prop :=
  neu = [] ∧ z' = z ∨
    z' = ⟨some heute, z.am heute + (zurueck neu).length⟩ ∧
      (0 < cap → ImRahmen cap (z.am heute) neu.length)

/-- A round consists of full exits and of trims of other symbols. -/
structure Rundgang (z z' : Sitzung) (exited : List String) (voll trims : List Ereignis) :
    Prop where
  vollverkauft : voll = [] ∧ exited = [] ∨
    ∃ session s, Vollverkauft g u session s voll ∧ exited = s.exited
  getrimmt : trims = [] ∨
    ∃ session s, Getrimmt g (u.alreadyActed ++ exited) (.zuBeginn session) s trims
  rotation : Zaehlt g.rotationMaxExitsPerSession u.heute z.rotation z'.rotation voll
  trim : Zaehlt g.trimMaxExitsPerSession u.heute z.trim z'.trim trims

theorem rotationAusstiege_rundgang (z : Tageszaehler) :
    ((rotationAusstiege g u z).2.1 = [] ∧ (rotationAusstiege g u z).1 = [] ∨
      ∃ session s, Vollverkauft g u session s (rotationAusstiege g u z).2.1 ∧
        (rotationAusstiege g u z).1 = s.exited) ∧
    Zaehlt g.rotationMaxExitsPerSession u.heute z (rotationAusstiege g u z).2.2
      (rotationAusstiege g u z).2.1 := by
  unfold rotationAusstiege
  split
  next =>
    obtain ⟨neu, h⟩ := rotationHebel_vollverkauft g u (z.am u.heute)
    have hneu : (rotationHebel g u (z.am u.heute)).ereignisse = neu := h.abgang.ereignisse
    dsimp only
    rw [hneu]
    refine ⟨.inr ⟨_, _, h, rfl⟩, .inr ⟨?_, h.tag⟩⟩
    rw [h.abgang.session]
    rfl
  next => exact ⟨.inl ⟨rfl, rfl⟩, .inl ⟨rfl, rfl⟩⟩

theorem trimAusstiege_rundgang (acted : List String) (z : Tageszaehler) :
    (∃ session s, Getrimmt g acted (.zuBeginn session) s (trimAusstiege g u acted z).2.1) ∧
    Zaehlt g.trimMaxExitsPerSession u.heute z (trimAusstiege g u acted z).2.2
      (trimAusstiege g u acted z).2.1 := by
  obtain ⟨neu, h⟩ := trimSchleife_getrimmt g u acted (u.rebalanceRecommendations.getD [])
    (.zuBeginn (z.am u.heute))
  have hneu : (trimAusstiege g u acted z).2.1 = neu := h.abgang.ereignisse
  rw [hneu]
  refine ⟨⟨_, _, h⟩, .inr ⟨?_, h.tag⟩⟩
  show (⟨some u.heute, _⟩ : Tageszaehler) = _
  rw [h.abgang.session]
  rfl

theorem runde_rundgang (z : Sitzung) : ∃ exited voll trims,
    (runde g u z).1.2 = voll ++ trims ∧ Rundgang g u z (runde g u z).2 exited voll trims := by
  have hnichts (cap heute : ℤ) (z : Tageszaehler) : Zaehlt cap heute z z [] := .inl ⟨rfl, rfl⟩
  unfold runde
  split
  next =>
    obtain ⟨hrot, hrotation⟩ := rotationAusstiege_rundgang g u z.rotation
    cases u.rotationExitEnabled with
    | true =>
        simp only [if_true]
        obtain ⟨htrim, hzaehler⟩ := trimAusstiege_rundgang g u
          (u.alreadyActed ++ (rotationAusstiege g u z.rotation).1) z.trim
        cases u.deconcentrationTrimEnabled with
        | true => exact ⟨_, _, _, rfl, hrot, .inr htrim, hrotation, hzaehler⟩
        | false => exact ⟨_, _, _, rfl, hrot, .inl rfl, hrotation, hnichts _ _ _⟩
    | false =>
        simp only [Bool.false_eq_true, if_false]
        obtain ⟨htrim, hzaehler⟩ := trimAusstiege_rundgang g u (u.alreadyActed ++ []) z.trim
        cases u.deconcentrationTrimEnabled with
        | true => exact ⟨[], [], _, rfl, .inl ⟨rfl, rfl⟩, .inr htrim, hnichts _ _ _, hzaehler⟩
        | false => exact ⟨[], [], [], rfl, .inl ⟨rfl, rfl⟩, .inl rfl, hnichts _ _ _, hnichts _ _ _⟩
  next => exact ⟨[], [], [], rfl, .inl ⟨rfl, rfl⟩, .inl rfl, hnichts _ _ _, hnichts _ _ _⟩

end

/-- The budgets of a round.  The last one says that no more is wound down than is
held over the cap. -/
structure RundenBudget (u : Umfeld) (es : List Ereignis) : Prop where
  zyklus : (es.countP Ereignis.voll : ℤ) ≤ max 1 u.maxExitsPerCycle
  einmal : (es.map Ereignis.symbol).Nodup
  unberuehrt : ∀ e ∈ es, e.symbol ∉ u.alreadyActed
  trimMenge : ∀ e ∈ es, e.weg = .trim →
    0 < e.suggestedQuantity ∧ e.suggestedQuantity ≤ e.positionQty
  ueberhang : (es.countP (·.weg = .bookOverflow) : ℤ) ≤ max 0 (u.held.entries.length - u.cap)

section

variable {g : Grenzen} {u : Umfeld} {z z' : Sitzung} {exited : List String}
  {voll trims : List Ereignis}

theorem Rundgang.trims_nicht_voll (h : Rundgang g u z z' exited voll trims) :
    ∀ e ∈ trims, e.weg = .trim := by
  rcases h.getrimmt with rfl | ⟨_, _, htrim⟩
  · simp
  · exact htrim.weg

theorem Rundgang.voll_voll (h : Rundgang g u z z' exited voll trims) :
    ∀ e ∈ voll, e.voll = true := by
  rcases h.vollverkauft with ⟨rfl, -⟩ | ⟨_, _, hvoll, -⟩
  · simp
  · exact hvoll.voll

theorem Rundgang.countP_voll (h : Rundgang g u z z' exited voll trims) :
    (voll ++ trims).countP Ereignis.voll = voll.length := by
  have htrims : trims.countP Ereignis.voll = 0 :=
    List.countP_eq_zero.mpr fun e he => by simp [Ereignis.voll, h.trims_nicht_voll e he]
  rw [List.countP_append, List.countP_eq_length.mpr h.voll_voll, htrims, Nat.add_zero]

theorem Rundgang.countP_trim (h : Rundgang g u z z' exited voll trims) :
    (voll ++ trims).countP (fun e => !e.voll) = trims.length := by
  have hvoll : voll.countP (fun e => !e.voll) = 0 :=
    List.countP_eq_zero.mpr fun e he => by simp [h.voll_voll e he]
  have htrims : trims.countP (fun e => !e.voll) = trims.length :=
    List.countP_eq_length.mpr fun e he => by simp [Ereignis.voll, h.trims_nicht_voll e he]
  rw [List.countP_append, hvoll, htrims, Nat.zero_add]

/-- What is booked of the full exits when all of them return. -/
theorem Rundgang.exited_eq (h : Rundgang g u z z' exited voll trims)
    (hkein : ∀ e ∈ voll, e.geworfen = false) : exited = voll.map Ereignis.symbol := by
  rcases h.vollverkauft with ⟨rfl, rfl⟩ | ⟨_, s, hvoll, rfl⟩
  · rfl
  · have hexited := hvoll.abgang.exited
    rw [zurueck_eq_self hkein] at hexited
    exact hexited

/-- A round in which the full exits return keeps its budgets. -/
theorem Rundgang.budget (h : Rundgang g u z z' exited voll trims)
    (hkein : ∀ e ∈ voll, e.geworfen = false) : RundenBudget u (voll ++ trims) where
  zyklus := by
    rw [h.countP_voll]
    rcases h.vollverkauft with ⟨rfl, -⟩ | ⟨_, _, hvoll, -⟩
    · have hcap := rotCap_pos u
      exact le_trans (by simp) (le_max_left _ _)
    · exact hvoll.zyklus
  einmal := by
    rw [List.map_append, List.nodup_append]
    refine ⟨?_, ?_, ?_⟩
    · rcases h.vollverkauft with ⟨rfl, -⟩ | ⟨_, _, hvoll, -⟩
      · exact List.nodup_nil
      · exact hvoll.abgang.einmal
    · rcases h.getrimmt with rfl | ⟨_, _, htrim⟩
      · exact List.nodup_nil
      · exact htrim.abgang.einmal
    · rcases h.getrimmt with rfl | ⟨_, _, htrim⟩
      · simp
      · intro a ha b hb hab
        obtain ⟨e, he, rfl⟩ := List.mem_map.mp hb
        refine (htrim.abgang.frisch e he).1 (List.mem_append_right _ ?_)
        rw [h.exited_eq hkein]
        exact hab ▸ ha
  unberuehrt := by
    intro e he
    rcases List.mem_append.mp he with he | he
    · rcases h.vollverkauft with ⟨rfl, -⟩ | ⟨_, _, hvoll, -⟩
      · cases he
      · exact (hvoll.abgang.frisch e he).1
    · rcases h.getrimmt with rfl | ⟨_, _, htrim⟩
      · cases he
      · exact fun hmem => (htrim.abgang.frisch e he).1 (List.mem_append_left _ hmem)
  trimMenge := by
    intro e he hweg
    rcases List.mem_append.mp he with he | he
    · have hvoll := h.voll_voll e he
      simp [Ereignis.voll, hweg] at hvoll
    · rcases h.getrimmt with rfl | ⟨_, _, htrim⟩
      · cases he
      · exact htrim.menge e he
  ueberhang := by
    have htrims : trims.countP (·.weg = .bookOverflow) = 0 :=
      List.countP_eq_zero.mpr fun e he => by simp [h.trims_nicht_voll e he]
    rw [List.countP_append, htrims, Nat.add_zero]
    rcases h.vollverkauft with ⟨rfl, -⟩ | ⟨_, _, hvoll, -⟩
    · exact le_max_left _ _
    · exact hvoll.ueberhang

end

/-! ## The budgets of a day -/

/-- How many sales of a kind the calls of a day handed over. -/
def amTag (p : Ereignis → Bool) (d : ℤ) (l : List (Umfeld × List Ereignis)) : ℕ :=
  (l.map fun r => if r.1.heute = d then r.2.countP p else 0).sum

theorem amTag_eq_zero {p : Ereignis → Bool} {d : ℤ} {g : Grenzen} {z : Sitzung} {us : List Umfeld}
    (h : ∀ u ∈ us, u.heute ≠ d) : amTag p d (lauf g z us) = 0 := by
  induction us generalizing z with
  | nil => rfl
  | cons u us ih =>
      obtain ⟨hu, hrest⟩ := List.forall_mem_cons.mp h
      have hih := ih (z := (runde g u z).2) hrest
      unfold amTag at hih ⊢
      rw [lauf, List.map_cons, List.sum_cons, if_neg hu, hih]

/-- A counter that counts the sales of a kind in every round bounds them on every
day. -/
theorem amTag_le {g : Grenzen} {p : Ereignis → Bool} {cap : ℤ} (hcap : 0 < cap)
    (zaehler : Sitzung → Tageszaehler) {us : List Umfeld} {z : Sitzung}
    (hzeit : us.Pairwise fun u v => u.heute ≤ v.heute)
    (hvor : ∀ alt, (zaehler z).datum = some alt → ∀ u ∈ us, alt ≤ u.heute)
    (hkein : ∀ r ∈ lauf g z us, ∀ e ∈ r.2, e.geworfen = false)
    (hschritt : ∀ u z, (∀ e ∈ (runde g u z).1.2, e.geworfen = false) → ∃ neu,
      (runde g u z).1.2.countP p = neu.length ∧ (∀ e ∈ neu, e.geworfen = false) ∧
        Zaehlt cap u.heute (zaehler z) (zaehler (runde g u z).2) neu) (d : ℤ) :
    (amTag p d (lauf g z us) + (zaehler z).am d : ℤ) ≤ max ((zaehler z).am d : ℤ) cap := by
  induction us generalizing z with
  | nil =>
      rw [lauf]
      simp [amTag]
  | cons u us ih =>
      obtain ⟨hu, hzeit⟩ := List.pairwise_cons.mp hzeit
      rw [lauf] at hkein
      obtain ⟨hkeinU, hkein⟩ := List.forall_mem_cons.mp hkein
      obtain ⟨neu, hzahl, hneu, hzaehlt⟩ := hschritt u z hkeinU
      have hsum : amTag p d (lauf g z (u :: us)) =
          (if u.heute = d then neu.length else 0) + amTag p d (lauf g (runde g u z).2 us) := by
        rw [lauf]
        simp only [amTag, List.map_cons, List.sum_cons, hzahl]
      rw [hsum]
      rcases hzaehlt with ⟨rfl, hgleich⟩ | ⟨hneuerStand, hrahmen⟩
      · have hrest := ih hzeit (fun alt halt v hv =>
          hvor alt (hgleich ▸ halt) v (.tail _ hv)) hkein
        rw [hgleich] at hrest
        simpa using hrest
      · rw [zurueck_eq_self hneu] at hneuerStand
        have hrest := ih hzeit (fun alt halt v hv => by
          rw [hneuerStand] at halt
          obtain rfl := Option.some.inj halt
          exact hu v hv) hkein
        have hrahmen := hrahmen hcap
        rw [hneuerStand] at hrest
        unfold ImRahmen at hrahmen
        by_cases hd : u.heute = d
        · subst hd
          have ham : (⟨some u.heute, (zaehler z).am u.heute + neu.length⟩ : Tageszaehler).am u.heute =
              (zaehler z).am u.heute + neu.length := if_pos rfl
          rw [ham] at hrest
          rw [if_pos rfl]
          push_cast at hrest ⊢
          omega
        · have ham : (⟨some u.heute, (zaehler z).am u.heute + neu.length⟩ : Tageszaehler).am d = 0 :=
            if_neg fun heq => hd (Option.some.inj heq)
          rw [ham] at hrest
          rw [if_neg hd]
          by_cases halt : (zaehler z).datum = some d
          · -- The day is over: no later call is on it.
            have hlater : d < u.heute := lt_of_le_of_ne (hvor d halt u (.head _)) (Ne.symm hd)
            have hnull := amTag_eq_zero (p := p) (d := d) (g := g) (z := (runde g u z).2)
              fun v hv => (hlater.trans_le (hu v hv)).ne'
            rw [hnull]
            simp
          · have hnull : (zaehler z).am d = 0 := if_neg halt
            rw [hnull]
            push_cast at hrest ⊢
            omega

/-- The budgets of a run: those of its rounds, and those of its days. -/
structure Budget (g : Grenzen) (us : List Umfeld) : Prop where
  runden : ∀ r ∈ lauf g .neu us, RundenBudget r.1 r.2
  rotation : 0 < g.rotationMaxExitsPerSession → ∀ d,
    (amTag Ereignis.voll d (lauf g .neu us) : ℤ) ≤ g.rotationMaxExitsPerSession
  trim : 0 < g.trimMaxExitsPerSession → ∀ d,
    (amTag (fun e => !e.voll) d (lauf g .neu us) : ℤ) ≤ g.trimMaxExitsPerSession

/-- A run in which every sale that is handed over returns keeps its budgets. -/
theorem budget_of_zurueck (g : Grenzen) (us : List Umfeld)
    (hzeit : us.Pairwise fun u v => u.now ≤ v.now)
    (hkein : ∀ r ∈ lauf g .neu us, ∀ e ∈ r.2, e.geworfen = false) : Budget g us := by
  have htage : us.Pairwise fun u v => u.heute ≤ v.heute :=
    hzeit.imp fun h => Int.ediv_le_ediv (by decide) h
  have hrunden (us : List Umfeld) (z : Sitzung) (r : Umfeld × List Ereignis)
      (hr : r ∈ lauf g z us) : ∃ z, r.2 = (runde g r.1 z).1.2 := by
    induction us generalizing z with
    | nil => cases hr
    | cons u us ih =>
        rw [lauf] at hr
        rcases List.mem_cons.mp hr with rfl | hr
        · exact ⟨z, rfl⟩
        · exact ih _ hr
  constructor
  · intro r hr
    obtain ⟨z, hz⟩ := hrunden us _ r hr
    obtain ⟨exited, voll, trims, heq, h⟩ := runde_rundgang g r.1 z
    have hkeinR := hkein r hr
    rw [hz, heq] at hkeinR ⊢
    exact h.budget fun e he => hkeinR e (List.mem_append_left _ he)
  · intro hcap d
    have hle := amTag_le hcap (fun z => z.rotation) htage (fun alt halt => by cases halt) hkein
      (fun u z hu => by
        obtain ⟨exited, voll, trims, heq, h⟩ := runde_rundgang g u z
        rw [heq] at hu ⊢
        exact ⟨voll, h.countP_voll, fun e he => hu e (List.mem_append_left _ he), h.rotation⟩) d
    have hnull : Sitzung.neu.rotation.am d = 0 := rfl
    rw [hnull] at hle
    push_cast at hle
    omega
  · intro hcap d
    have hle := amTag_le hcap (fun z => z.trim) htage (fun alt halt => by cases halt) hkein
      (fun u z hu => by
        obtain ⟨exited, voll, trims, heq, h⟩ := runde_rundgang g u z
        rw [heq] at hu ⊢
        exact ⟨trims, h.countP_trim, fun e he => hu e (List.mem_append_right _ he), h.trim⟩) d
    have hnull : Sitzung.neu.trim.am d = 0 := rfl
    rw [hnull] at hle
    push_cast at hle
    omega

/-! ## A sale that raises -/

section Beispiel

def einerAmTag : Grenzen where
  rotationMaxExitsPerSession := 1
  trimMaxExitsPerSession := 1

def score : Score where
  qty := 10
  daysHeld := 20
  currentPrice := 100

/-- One position on rank 300, which is also to be trimmed; the rotation's sale of it
may raise. -/
def umfeld (now : ℤ) (wirft : Bool) : Umfeld where
  now := now
  alreadyActed := []
  rotationExitEnabled := true
  deconcentrationTrimEnabled := true
  bookCapEnforcementEnabled := true
  portfolioManager := true
  snapshot := some 0
  panelMaxAgeDays := 3
  topN := 10
  minHoldDays := 5
  hysteresis := 3
  maxExitsPerCycle := 1
  minHoldHardGate := true
  positionScores := .set .empty "AAPL" score
  held := .set .empty "AAPL" score
  maxPositions := 10
  rank _ := some (some 300)
  veto _ _ := some false
  wirft _ _ := wirft
  minOrderValue := 1
  rebalanceRecommendations := some
    [{ action := "REDUCE", symbol := "AAPL", marketValue := 1000, adjustmentValue := -400
       score := some score, veto := some false, wirft := false }]

theorem budget_zwei_runden : Budget einerAmTag [umfeld 0 false, umfeld 60 false] :=
  budget_of_zurueck einerAmTag [umfeld 0 false, umfeld 60 false] (by simp [umfeld])
    (by decide +kernel)

/-- A sale that raises is repeated by the trim in the same round and by the rotation
in the next one. -/
theorem wurf_wiederholt : ¬Budget einerAmTag [umfeld 0 true, umfeld 60 true] := by
  intro h
  have hzwei : amTag Ereignis.voll 0 (lauf einerAmTag .neu [umfeld 0 true, umfeld 60 true]) = 2 := by
    decide +kernel
  have hle := h.rotation (by decide) 0
  rw [hzwei] at hle
  exact absurd hle (by decide)

end Beispiel

end Ausstiegsrunde
