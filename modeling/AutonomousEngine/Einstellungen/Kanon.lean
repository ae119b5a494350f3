import AutonomousEngine.Einstellungen.Vertrag

/-!
# Canonical texts and changes

A canonical text is written from a parsed value and reads back as that value, rounded to
the places of its setting.  To write it again changes nothing (`kanonisch_kanonisch`).
The list of the changes between two states makes the one of the other
(`anwenden_describeChanges`).
-/

namespace Einstellungen

open Basis

/-! ## Texts of parsed values -/

def textVon (s : Setting) (w : Wert) : String :=
  match s.kind with
  | .bool => if w = .bool true then "true" else "false"
  | .enum =>
      match w with
      | .text t => t
      | _ => ""
  | .int => String.ofList (formatFixed 0 w.float)
  | .float => String.ofList (formatFixed s.decimals w.float)

def kanonisch (P : Python) (s : Setting) (v : Roh) : String := textVon s (parse P s v)

/-- The value that a canonical text writes. -/
def wertVon (s : Setting) (t : String) : Wert :=
  match s.kind with
  | .bool => .bool (t = "true")
  | .enum => .text t
  | .int => .ganz ⌊(lies t).getD 0⌋
  | .float => .zahl ((lies t).getD 0)

/-- What `float`, `strip` and `lower` do with the texts that are written here: a decimal text
is read as the double next to its number, and a word in small letters stays as it is. -/
structure Python.Gesetze (P : Python) : Prop where
  float_format : ∀ d q, |q| ≤ 2 ^ 17 →
    P.float (String.ofList (formatFixed d q)) = some (.of (nearest (roundTo d q)))
  stripLower_isLower : ∀ t : String, t.toList.all Char.isLower = true → P.stripLower t = t

/-- The texts of all settings as the configuration has them. -/
def currentSettings (P : Python) (cfg : Option Konfig) : List (String × String) :=
  register.map fun s => (s.key, kanonisch P s ((cfg.bind fun c => c.attr s.key).getD s.default.roh))

theorem canonicalText_eq (P : Python) (s : Setting) (w : Wert) :
    canonicalText P s w = kanonisch P s w.roh := rfl

/-! ## Changes -/

structure Aenderung where
  key : String
  von : String
  nach : String
deriving DecidableEq

def describeChanges (current new : List (String × String)) : List Aenderung :=
  register.filterMap fun s =>
    match dictGet s.key current, dictGet s.key new with
    | some before, some after => if before = after then none else some ⟨s.key, before, after⟩
    | _, _ => none

/-- The state that a list of changes makes of another. -/
def anwenden (changes : List Aenderung) (stand : List (String × String)) :
    List (String × String) :=
  changes.foldl (fun st a => dictSet a.key a.nach st) stand

theorem dictGet_register (g : Setting → String) {s : Setting} (hs : s ∈ register) :
    dictGet s.key (register.map fun s => (s.key, g s)) = some (g s) := by
  have hnodup : ((register.map fun s => (s.key, g s)).map Prod.fst).Nodup := by
    rw [List.map_map]
    exact register_nodup
  exact (dictGet_eq_some_iff hnodup).mpr (List.mem_map.mpr ⟨s, hs, rfl⟩)

/-- Between two full states the changes are the settings with two texts. -/
theorem describeChanges_register (alt neu : Setting → String) :
    describeChanges (register.map fun s => (s.key, alt s)) (register.map fun s => (s.key, neu s)) =
      register.filterMap fun s => if alt s = neu s then none else some ⟨s.key, alt s, neu s⟩ := by
  rw [describeChanges]
  refine List.filterMap_congr fun s hs => ?_
  rw [dictGet_register alt hs, dictGet_register neu hs]

theorem describeChanges_self (alt : Setting → String) :
    describeChanges (register.map fun s => (s.key, alt s)) (register.map fun s => (s.key, alt s)) =
      [] := by
  rw [describeChanges_register, List.filterMap_eq_nil_iff]
  intro s _
  exact if_pos rfl

/-- The changes of some settings, made behind the entries of others. -/
theorem foldl_dictSet_changes (alt neu : Setting → String) (ss : List Setting)
    (vorn : List (String × String)) (h : (vorn.map Prod.fst ++ ss.map Setting.key).Nodup) :
    (ss.filterMap fun s => if alt s = neu s then none else
        some (⟨s.key, alt s, neu s⟩ : Aenderung)).foldl (fun st a => dictSet a.key a.nach st)
      (vorn ++ ss.map fun s => (s.key, alt s)) = vorn ++ ss.map fun s => (s.key, neu s) := by
  induction ss generalizing vorn with
  | nil => rfl
  | cons s ss ih =>
      have hnext : ((vorn ++ [(s.key, neu s)]).map Prod.fst ++ ss.map Setting.key).Nodup := by
        simpa using h
      have hs : s.key ∉ vorn.map Prod.fst := fun hmem =>
        (List.disjoint_of_nodup_append h) hmem (List.mem_cons_self ..)
      have hrest := ih _ hnext
      simp only [List.append_assoc, List.singleton_append] at hrest
      rw [List.filterMap_cons, List.map_cons, List.map_cons]
      by_cases heq : alt s = neu s
      · rw [if_pos heq, heq]
        exact hrest
      · simp only [if_neg heq, List.foldl_cons]
        rw [dictSet_append_of_notMem _ hs, dictSet, if_pos rfl]
        exact hrest

/-- The changes from one full state to another make the other. -/
theorem anwenden_describeChanges (alt neu : Setting → String) :
    anwenden (describeChanges (register.map fun s => (s.key, alt s))
        (register.map fun s => (s.key, neu s))) (register.map fun s => (s.key, alt s)) =
      register.map fun s => (s.key, neu s) := by
  rw [describeChanges_register, anwenden]
  exact foldl_dictSet_changes alt neu register [] register_nodup

/-! ## Writing and reading -/

/-- No setting has bounds on both sides of zero, and one below it stays below. -/
theorem register_vorzeichen : ∀ s ∈ register, s.kind = .float → 0 ≤ s.lo ∨ s.hi < 0 := by
  decide +kernel

/-- A number and the one that is read from its text have one text. -/
theorem formatFixed_klein {s : Setting} (hs : s ∈ register) (hkind : s.kind = .float) {q : ℚ}
    (h : s.lo ≤ q) (h' : q ≤ s.hi) :
    formatFixed s.decimals (nearest (roundTo s.decimals q)) = formatFixed s.decimals q := by
  have hzahl := s.zahlig_of_stimmt (register_stimmt s hs) hkind
  obtain ⟨hround, hround'⟩ := hzahl.round_mem h h'
  refine formatFixed_congr (hzahl.roundTo_round h h') ?_
  rcases register_vorzeichen s hs hkind with hlo | hhi
  · exact iff_of_false (not_lt.mpr (hlo.trans hround)) (not_lt.mpr (hlo.trans h))
  · exact iff_of_true (hround'.trans_lt hhi) (h'.trans_lt hhi)

/-- The value that is read from the text of a value. -/
def gerundet (s : Setting) : Wert → Wert
  | .zahl q => .zahl (nearest (roundTo s.decimals q))
  | w => w

/-- The values that a setting can have. -/
inductive Passend (s : Setting) : Wert → Prop where
  | zahl {q : ℚ} (hkind : s.kind = .float) (hlo : s.lo ≤ q) (hhi : q ≤ s.hi) : Passend s (.zahl q)
  | ganz {n : ℤ} (hkind : s.kind = .int) (hlo : s.lo ≤ n) (hhi : n ≤ s.hi) : Passend s (.ganz n)
  | bool (b : Bool) (hkind : s.kind = .bool) : Passend s (.bool b)
  | text {t : String} (hkind : s.kind = .enum) (hmem : t ∈ s.choices) : Passend s (.text t)

theorem register_choices : ∀ s ∈ register, ∀ t ∈ s.choices, t.toList.all Char.isLower = true := by
  decide +kernel

theorem parseBool_cases {P : Python} {s : Setting} {b : Bool} (hs : s.default = .bool b) (v : Roh) :
    ∃ b', parseBool P s v = .bool b' := by
  cases v with
  | bool b' => exact ⟨b', rfl⟩
  | text t =>
      rw [parseBool]
      split
      next => exact ⟨true, rfl⟩
      next =>
        split
        next => exact ⟨false, rfl⟩
        next => exact ⟨b, hs⟩
  | zahl x => exact ⟨b, hs⟩
  | ganz n => exact ⟨b, hs⟩
  | anderes t => exact ⟨b, hs⟩

theorem parseEnum_cases {P : Python} {s : Setting} {d : String} (hs : s.default = .text d)
    (hd : d ∈ s.choices) (v : Roh) : ∃ t ∈ s.choices, parseEnum P s v = .text t := by
  have hdefault : ∃ t ∈ s.choices, (if "" ∈ s.choices then .text "" else s.default) =
      Wert.text t := by
    split
    next h => exact ⟨"", h, rfl⟩
    next => exact ⟨d, hd, hs⟩
  cases v with
  | text t =>
      rw [parseEnum]
      split
      next h => exact ⟨_, h, rfl⟩
      next => exact ⟨d, hd, hs⟩
  | bool b => exact hdefault
  | zahl x => exact hdefault
  | ganz n => exact hdefault
  | anderes t => exact hdefault

/-- Whatever is sent, what is parsed fits the setting. -/
theorem parse_passend (P : Python) {s : Setting} (hs : s.stimmt = true) (v : Roh) :
    Passend s (parse P s v) := by
  cases hkind : s.kind with
  | float =>
      obtain ⟨q, hq, hlo, hhi⟩ := parse_float P hs hkind v
      rw [hq]
      exact .zahl hkind hlo hhi
  | int =>
      obtain ⟨n, hn, hlo, hhi⟩ := parse_int P hs hkind v
      rw [hn]
      exact .ganz hkind hlo hhi
  | bool =>
      rw [Setting.stimmt, hkind] at hs
      rw [parse, hkind]
      cases hd : s.default with
      | bool b =>
          obtain ⟨b', hb⟩ := parseBool_cases (P := P) hd v
          dsimp only
          rw [hb]
          exact .bool b' hkind
      | _ =>
          rw [hd] at hs
          cases hs
  | enum =>
      rw [Setting.stimmt, hkind] at hs
      rw [parse, hkind]
      cases hd : s.default with
      | text d =>
          rw [hd] at hs
          obtain ⟨t, ht, hparse⟩ := parseEnum_cases (P := P) hd (List.contains_iff_mem.mp hs) v
          dsimp only
          rw [hparse]
          exact .text hkind ht
      | _ =>
          rw [hd] at hs
          cases hs

section

variable {P : Python} {s : Setting} {w : Wert}

theorem Passend.gerundet (hs : s.stimmt = true) (h : Passend s w) : Passend s (gerundet s w) := by
  cases h with
  | zahl hkind hlo hhi =>
      obtain ⟨hlo', hhi'⟩ := (s.zahlig_of_stimmt hs hkind).round_mem hlo hhi
      exact .zahl hkind hlo' hhi'
  | ganz hkind hlo hhi => exact .ganz hkind hlo hhi
  | bool b hkind => exact .bool b hkind
  | text hkind hmem => exact .text hkind hmem

theorem Passend.textVon_gerundet (hs : s ∈ register) (h : Passend s w) :
    textVon s (Einstellungen.gerundet s w) = textVon s w := by
  cases h with
  | zahl hkind hlo hhi =>
      simp only [textVon, hkind, Einstellungen.gerundet, Wert.float]
      rw [formatFixed_klein hs hkind hlo hhi]
  | ganz hkind hlo hhi => rfl
  | bool b hkind => rfl
  | text hkind hmem => rfl

theorem Passend.parse_roh (hP : P.Gesetze) (hs : s ∈ register) (h : Passend s w) :
    parse P s w.roh = w := by
  cases h with
  | zahl hkind hlo hhi =>
      simp only [parse, hkind, parseFloat, Wert.roh, Roh.number]
      rw [Setting.klemme_of_mem hlo hhi]
  | ganz hkind hlo hhi =>
      simp only [parse, hkind, parseInt, Wert.roh, Roh.number]
      rw [nearest_of_klein (s.ganz_of_stimmt (register_stimmt s hs) hkind) hlo hhi,
        Setting.klemme_of_mem hlo hhi, roundHalfEven_intCast]
  | bool b hkind => simp only [parse, hkind, parseBool, Wert.roh]
  | text hkind hmem =>
      have hlower := hP.stripLower_isLower _ (register_choices s hs _ hmem)
      simp only [parse, hkind, parseEnum, Wert.roh, hlower, if_pos hmem]

theorem roundTo_zero_intCast (n : ℤ) : roundTo 0 n = n :=
  roundTo_of_mul_eq (k := n) (by rw [pow_zero, mul_one])

/-- The text of a value is parsed as the rounded value. -/
theorem Passend.parse_textVon (hP : P.Gesetze) (hs : s ∈ register) (h : Passend s w) :
    parse P s (.text (textVon s w)) = Einstellungen.gerundet s w := by
  cases h with
  | zahl hkind hlo hhi =>
      have hzahl := s.zahlig_of_stimmt (register_stimmt s hs) hkind
      obtain ⟨hlo', hhi'⟩ := hzahl.round_mem hlo hhi
      have hread := hP.float_format s.decimals _ (hzahl.betrag_le hlo hhi)
      simp only [parse, hkind, parseFloat, textVon, Roh.number, hread, Wert.float]
      rw [Setting.klemme_of_mem hlo' hhi', Einstellungen.gerundet]
  | @ganz n hkind hlo hhi =>
      have hganz := s.ganz_of_stimmt (register_stimmt s hs) hkind
      have hread := hP.float_format 0 (n : ℚ) (hganz.betrag_le hlo hhi)
      rw [roundTo_zero_intCast, nearest_of_klein hganz hlo hhi] at hread
      simp only [parse, hkind, parseInt, textVon, Roh.number, hread, Wert.float]
      rw [Setting.klemme_of_mem hlo hhi, roundHalfEven_intCast]
      rfl
  | bool b hkind =>
      have htrue := hP.stripLower_isLower "true" (by decide)
      have hfalse := hP.stripLower_isLower "false" (by decide)
      cases b <;> simp [parse, hkind, parseBool, textVon, htrue, hfalse, Einstellungen.gerundet]
  | text hkind hmem =>
      have hlower := hP.stripLower_isLower _ (register_choices s hs _ hmem)
      simp only [parse, hkind, parseEnum, textVon, hlower, if_pos hmem, Einstellungen.gerundet]

/-- The text of a value writes the rounded value. -/
theorem Passend.wertVon_textVon (hs : s.stimmt = true) (h : Passend s w) :
    wertVon s (textVon s w) = Einstellungen.gerundet s w := by
  cases h with
  | zahl hkind hlo hhi =>
      simp only [wertVon, textVon, hkind, lies, String.toList_ofList, readDecimal_formatFixed,
        Wert.float, Option.map_some, Option.getD_some, Einstellungen.gerundet]
  | ganz hkind hlo hhi =>
      simp only [wertVon, textVon, hkind, lies, String.toList_ofList, readDecimal_formatFixed,
        Wert.float, Option.map_some, Option.getD_some, Einstellungen.gerundet,
        roundTo_zero_intCast, nearest_of_klein (s.ganz_of_stimmt hs hkind) hlo hhi,
        Int.floor_intCast]
  | bool b hkind =>
      cases b <;> simp [wertVon, textVon, hkind, Einstellungen.gerundet]
  | text hkind hmem => simp only [wertVon, textVon, hkind, Einstellungen.gerundet]

/-- A canonical text is its own canonical text. -/
theorem kanonisch_kanonisch (hP : P.Gesetze) (hs : s ∈ register) (v : Roh) :
    kanonisch P s (.text (kanonisch P s v)) = kanonisch P s v := by
  have h := parse_passend P (register_stimmt s hs) v
  rw [kanonisch, kanonisch, h.parse_textVon hP hs, h.textVon_gerundet hs]

end

end Einstellungen
