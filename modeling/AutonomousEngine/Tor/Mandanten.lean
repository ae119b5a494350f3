import AutonomousEngine.Outbox.Nebenlauf
import AutonomousEngine.Tor.Absenden

/-!
# One decision for many tenants

A decision is fanned out to every active tenant, and each tenant's order is an
attempt of its own at the gate, with its own account and its own broker.  The
client order id comes from the decision context, which all tenants share: the
id the context carries, else one derived from the decision id, and a random one
only when the context has neither.  So with a context that has an id all tenants
send under one key, and the outbox has one entry for all of them.

`mandanten_gebucht_iff` says exactly when every tenant's order has an entry of
its own until it is settled: when the keys are random, or when there is at most
one tenant.  The outbox steps all take effect here, and the keys are fresh in
the outbox.
-/

namespace Tor

open Outbox (Ablage OutboxEintrag Meldung)
open Basis (System)

/-! ## Keys -/

/-- The part of a decision context the key is made from. -/
structure Kontext where
  clientOrderId : String
  decisionId : String
deriving DecidableEq, Repr

/-- The characters a literal key body may have. -/
def erlaubt (c : Char) : Bool := c.isAlphanum || c == '-'

/-- The key derived from a decision, for the leg `entry` and the attempt 0.  The
literal form is used when it carries the decision unchanged and is short
enough, else a digest stands for the decision. -/
def deriveClientOrderId (digest : String → String) (decisionId : String) : String :=
  let rumpf := decisionId.map fun c => if erlaubt c then c else '-'
  if rumpf = decisionId ∧ "entry-0-".length + rumpf.length ≤ 128 then "entry-0-" ++ rumpf
  else "entry-0-" ++ "_" ++ digest decisionId

/-- The key of a tenant's order.  The random id is drawn anew for each order. -/
def mandantSchluessel (digest : String → String) (k : Kontext) (uuid : String) : String :=
  if k.clientOrderId ≠ "" then k.clientOrderId
  else if k.decisionId ≠ "" then deriveClientOrderId digest k.decisionId
  else uuid

def Kontext.ohneId (k : Kontext) : Prop := k.clientOrderId = "" ∧ k.decisionId = ""

theorem mandantSchluessel_gleich (digest : String → String) {k : Kontext} (hk : ¬ k.ohneId)
    (u u' : String) : mandantSchluessel digest k u = mandantSchluessel digest k u' := by
  by_cases hc : k.clientOrderId = ""
  · have hd : k.decisionId ≠ "" := fun hd => hk ⟨hc, hd⟩
    simp [mandantSchluessel, hc, hd]
  · simp [mandantSchluessel, hc]

theorem mandantSchluessel_ohneId (digest : String → String) {k : Kontext} (hk : k.ohneId)
    (u : String) : mandantSchluessel digest k u = u := by
  simp [mandantSchluessel, hk.1, hk.2]

/-! ## The fan-out -/

/-- A decision and the tenants it goes to. -/
structure Verteilung where
  kontext : Kontext
  mandanten : List String
  art : String
  symbol : String
  seite : String
  qty : Nat → Rat

/-- The attempt of the `j`-th tenant. -/
def Verteilung.auftrag (digest : String → String) (wuerfel : Nat → String) (v : Verteilung)
    (j : Nat) : Absendung :=
  { decisionId := v.kontext.decisionId
    art := v.art
    coid := mandantSchluessel digest v.kontext (wuerfel j)
    symbol := v.symbol
    seite := v.seite
    qty := v.qty j
    userId := v.mandanten.getD j "" }

def Aktion.versuch : Aktion → Nat
  | .festschreiben i _ | .vermerken i _ | .tor i _ | .nachschlagen i _ | .verwerfen i _
  | .bestaetigen i _ => i

/-- The outbox was reachable and the lock obtained. -/
def Aktion.gelungen : Aktion → Bool
  | .festschreiben _ g => g == .ganz
  | .vermerken _ g | .verwerfen _ g | .bestaetigen _ g => g
  | .tor _ _ | .nachschlagen _ _ => true

/-- The interleavings of `n` attempts whose outbox steps all take effect. -/
abbrev verteilt (auftraege : Nat → Absendung) (n : Nat) (a₀ : Ablage) : System Lage Aktion :=
  (absenden auftraege (· = a₀)).restrict fun _ a _ => a.versuch < n ∧ a.gelungen = true

/-- The order of an attempt is recorded and not settled. -/
def Phase.laufend : Phase → Bool
  | .beginn | .beendet .bestaetigt | .beendet .verworfen => false
  | _ => true

variable (auftraege : Nat → Absendung)

/-- The outbox holds an unconfirmed entry of the order of attempt `j`, under its
key and with its user, as long as the order is not settled. -/
def Gebucht (x : Lage) (j : Nat) : Prop :=
  (x.phasen j).laufend = true →
    ∃ e ∈ x.ablage.unbestaetigte none, e.clientOrderId = (auftraege j).coid ∧
      e.userId = (auftraege j).userId

/-- A step finishes only entries of its own user. -/
def SchliesstNurEigene (x : Lage) (a : Aktion) (x' : Lage) : Prop :=
  ∀ coid e e', x.ablage.lese coid = some e → e.zustand.erledigt = false →
    x'.ablage.lese coid = some e' → e'.zustand.erledigt = true →
      e.userId = (auftraege a.versuch).userId

/-- What holds of the key of attempt `j` when no other attempt has it. -/
def Allein (x : Lage) (j : Nat) : Prop :=
  (x.phasen j = .beginn → x.ablage.get (auftraege j).coid = none) ∧
    ((x.phasen j).laufend = true → ∃ e, x.ablage.lese (auftraege j).coid = some e ∧
      e.zustand.erledigt = false ∧ e.clientOrderId = (auftraege j).coid ∧
      e.userId = (auftraege j).userId ∧ (auftraege j).coid ∈ x.ablage.read)

/-! ## Distinct keys -/

/-- A step changes the entry of its own key and its own phase, and removes no
directory line. -/
theorem schritt_rahmen {x x' : Lage} {a : Aktion} (h : schritt auftraege x a = some x') :
    (∀ c, c ≠ (auftraege a.versuch).coid → x'.ablage.get c = x.ablage.get c) ∧
      (∀ c ∈ x.ablage.read, c ∈ x'.ablage.read) ∧
      ∀ j, j ≠ a.versuch → x'.phasen j = x.phasen j := by
  cases Schritt.of_schritt auftraege h with
  | @festschreiben i g _ =>
      refine ⟨fun c hc => ?_, fun c hc => ?_, fun j hj => Function.update_of_ne hj _ _⟩
      · show (schreibeFest x.ablage (auftraege i).eintrag g).get c = _
        rcases schreibeFest_cases x.ablage (auftraege i).eintrag g with hs | ⟨_, hget, _⟩
        · rw [hs]
        · exact (hget c).trans (Ablage.get_set_of_ne _ _ _ hc)
      · show c ∈ (schreibeFest x.ablage (auftraege i).eintrag g).read
        rcases schreibeFest_cases x.ablage (auftraege i).eintrag g with hs | ⟨_, _, hread⟩
        · rwa [hs]
        · exact hread c hc
  | vermerken | verwerfen | bestaetigen =>
      exact ⟨fun c hc => Ablage.get_schreibeFort_of_ne hc _ _,
        fun c hc => (congrArg (c ∈ ·) (Ablage.read_schreibeFort _ _ _ _)).mpr hc,
        fun j hj => Function.update_of_ne hj _ _⟩
  | abgelehnt | angenommen | duplikat | fehler | gefunden | nichtGefunden =>
      exact ⟨fun c _ => rfl, fun c hc => hc, fun j hj => Function.update_of_ne hj _ _⟩

theorem lese_vermerkt {a : Ablage} {coid : String} {e : OutboxEintrag} (g : Bool)
    (he : a.lese coid = some e) (hz : e.zustand.erledigt = false) :
    ∃ e', (a.alsAbgesendet g coid).2.lese coid = some e' ∧ e'.zustand.erledigt = false ∧
      e'.clientOrderId = e.clientOrderId ∧ e'.userId = e.userId := by
  rcases Ablage.schreibeFort_cases g a coid .abgesendet with hs | ⟨d, hd, _, hs⟩
  · exact ⟨e, by rwa [Ablage.alsAbgesendet, hs], hz, rfl, rfl⟩
  · obtain rfl : d = e := Option.some.inj (hd.symm.trans he)
    exact ⟨Meldung.abgesendet.auf d, by rw [Ablage.alsAbgesendet, hs, Ablage.lese_set_self],
      rfl, rfl, rfl⟩

theorem allein_eigen {x x' : Lage} {a : Aktion} (h : schritt auftraege x a = some x')
    (hg : a.gelungen = true) (hx : Allein auftraege x a.versuch) :
    Allein auftraege x' a.versuch := by
  obtain ⟨hfrei, hlauf⟩ := hx
  cases Schritt.of_schritt auftraege h with
  | @festschreiben i g hp =>
      obtain rfl : g = .ganz := eq_of_beq hg
      have hnone : x.ablage.get (auftraege i).eintrag.clientOrderId = none := hfrei hp
      refine ⟨fun hb => ?_, fun _ => ?_⟩
      · simp [Lage.setzePhase, Aktion.versuch] at hb
      · show ∃ e, (schreibeFest x.ablage (auftraege i).eintrag .ganz).lese (auftraege i).coid =
          some e ∧ _
        rw [schreibeFest_ganz hnone]
        refine ⟨(auftraege i).eintrag, ?_, rfl, rfl, rfl, ?_⟩
        · exact Ablage.lese_set_self _ _ _
        · exact List.mem_append_right _ List.mem_cons_self
  | @vermerken i g hp =>
      refine ⟨fun hb => ?_, fun _ => ?_⟩
      · simp [Lage.setzePhase, Aktion.versuch] at hb
      · obtain ⟨e, he, hz, hk, hu, hmem⟩ := hlauf (by simp [Aktion.versuch, hp, Phase.laufend])
        obtain ⟨e', he', hz', hk', hu'⟩ := lese_vermerkt g he hz
        exact ⟨e', he', hz', hk'.trans hk, hu'.trans hu,
          (congrArg (_ ∈ ·) (Ablage.read_schreibeFort _ _ _ _)).mpr hmem⟩
  | verwerfen | bestaetigen =>
      exact ⟨fun hb => by simp [Lage.setzePhase, Aktion.versuch] at hb,
        fun hl => by simp [Lage.setzePhase, Aktion.versuch, Phase.laufend] at hl⟩
  | @angenommen i _ kommtAn hp _ =>
      have hold := hlauf (by simp [Aktion.versuch, hp, Phase.laufend])
      refine ⟨fun hb => ?_, fun _ => hold⟩
      cases kommtAn <;> simp [Lage.setzePhase, Aktion.versuch] at hb
  | @abgelehnt i _ hp | @duplikat i hp | @fehler i hp | @gefunden i _ hp _
  | @nichtGefunden i hp =>
      have hold := hlauf (by simp [Aktion.versuch, hp, Phase.laufend])
      exact ⟨fun hb => by simp [Lage.setzePhase, Aktion.versuch] at hb, fun _ => hold⟩

theorem allein_fremd {x x' : Lage} {a : Aktion} (h : schritt auftraege x a = some x') {j : Nat}
    (hj : j ≠ a.versuch) (hk : (auftraege j).coid ≠ (auftraege a.versuch).coid)
    (hx : Allein auftraege x j) : Allein auftraege x' j := by
  obtain ⟨hget, hread, hphase⟩ := schritt_rahmen auftraege h
  obtain ⟨hfrei, hlauf⟩ := hx
  rw [Allein, hphase j hj]
  refine ⟨fun hb => (hget _ hk).trans (hfrei hb), fun hl => ?_⟩
  obtain ⟨e, he, hz, hc, hu, hmem⟩ := hlauf hl
  exact ⟨e, by rwa [Ablage.lese, hget _ hk], hz, hc, hu, hread _ hmem⟩

/-- With distinct keys every attempt has its key to itself in every reached
situation. -/
theorem allein_of_reach {n : Nat} {a₀ : Ablage}
    (hverschieden : ∀ i j, i < n → j < n → (auftraege i).coid = (auftraege j).coid → i = j)
    (hfrisch : ∀ j, j < n → a₀.get (auftraege j).coid = none) {x : Lage}
    (hx : (verteilt auftraege n a₀).Reach x) : ∀ j, j < n → Allein auftraege x j := by
  refine hx.invariant (I := fun x => ∀ j, j < n → Allein auftraege x j) ?_ ?_
  · rintro x ⟨a, rfl, rfl⟩ j hj
    exact ⟨fun _ => hfrisch j hj, fun hl => (nomatch hl)⟩
  · intro x a x' hI ⟨hs, hn, hg⟩ j hj
    by_cases hja : j = a.versuch
    · subst hja
      exact allein_eigen auftraege hs hg (hI _ hn)
    · have hk : (auftraege j).coid ≠ (auftraege a.versuch).coid := fun heq =>
        hja (hverschieden j a.versuch hj hn heq)
      exact allein_fremd auftraege hs hja hk (hI j hj)

/-- A step finishes an entry only under its own key and while its own order is
running. -/
theorem schliesst_eigene {x x' : Lage} {a : Aktion} (h : schritt auftraege x a = some x')
    (hx : Allein auftraege x a.versuch) : SchliesstNurEigene auftraege x a x' := by
  intro coid e e' he hz he' hz'
  have hchanged : x'.ablage.get coid ≠ x.ablage.get coid := by
    intro hsame
    rw [Ablage.lese, hsame] at he'
    rw [Ablage.lese] at he
    rw [he] at he'
    cases he'
    rw [hz] at hz'
    cases hz'
  have hkey : coid = (auftraege a.versuch).coid := by
    by_contra hne
    exact hchanged ((schritt_rahmen auftraege h).1 coid hne)
  subst hkey
  have hlaufend : (x.phasen a.versuch).laufend = true := by
    cases Schritt.of_schritt auftraege h with
    | festschreiben g hp =>
        have hnone := hx.1 hp
        simp [Ablage.lese, hnone] at he
    | vermerken _ hp | verwerfen _ hp | bestaetigen _ hp => simp [Aktion.versuch, hp, Phase.laufend]
    | abgelehnt | angenommen | duplikat | fehler => exact absurd rfl hchanged
    | gefunden | nichtGefunden => exact absurd rfl hchanged
  obtain ⟨d, hd, _, _, hu, _⟩ := hx.2 hlaufend
  rw [hd] at he
  cases he
  exact hu

/-! ## A shared key -/

/-- Two attempts under one key: the first records, the second finds the entry,
and the first one's confirmation finishes it while the second runs. -/
theorem zwei_unter_einem_schluessel {n : Nat} (hn : 1 < n) {a₀ : Ablage}
    (hk : (auftraege 1).coid = (auftraege 0).coid)
    (hfrisch : a₀.get (auftraege 0).coid = none) :
    ∃ x, (verteilt auftraege n a₀).Reach x ∧ (x.phasen 1).laufend = true ∧
      x.ablage.Erledigt (auftraege 0).coid ∧
      ∀ c, c ≠ (auftraege 0).coid → x.ablage.get c = a₀.get c := by
  let as : List Aktion := [.festschreiben 0 .ganz, .festschreiben 1 .ganz, .vermerken 0 true,
    .tor 0 (.angenommen "o" true), .bestaetigen 0 true]
  have hallowed : ∀ a ∈ as, a.versuch < n ∧ a.gelungen = true := by
    simp only [as, List.forall_mem_cons, Aktion.versuch, Aktion.gelungen]
    simp
    omega
  let s₁ := schreibeFest (schreibeFest a₀ (auftraege 0).eintrag .ganz) (auftraege 1).eintrag .ganz
  let s₂ := (s₁.alsAbgesendet true (auftraege 0).coid).2
  obtain ⟨x, hrun, hstore, hphase⟩ : ∃ x, laufe auftraege (anfang a₀) as = some x ∧
      x.ablage = (s₂.alsBestaetigt true (auftraege 0).coid "o").2 ∧
      x.phasen 1 = .festgeschrieben := ⟨_, rfl, rfl, rfl⟩
  have hs₁ : s₁ = (a₀.set (auftraege 0).coid (auftraege 0).eintrag.alsJson).append
      (auftraege 0).coid := by
    have hfirst : schreibeFest a₀ (auftraege 0).eintrag .ganz =
        (a₀.set (auftraege 0).coid (auftraege 0).eintrag.alsJson).append (auftraege 0).coid :=
      schreibeFest_ganz (e := (auftraege 0).eintrag) hfrisch
    have hsecond : ∀ b : Ablage, b.get (auftraege 0).coid ≠ none →
        schreibeFest b (auftraege 1).eintrag .ganz = b := by
      intro b hb
      have hkey : (auftraege 1).eintrag.clientOrderId = (auftraege 0).coid := hk
      rcases schreibeFest_cases b (auftraege 1).eintrag .ganz with hs | ⟨hnone, _⟩
      · exact hs
      · exact absurd (hkey ▸ hnone) hb
    simp only [s₁, hfirst]
    exact hsecond _ (by simp)
  obtain ⟨e, he, hz, _⟩ := lese_vermerkt (a := s₁) true
    (by rw [hs₁, Ablage.lese_append, Ablage.lese_set_self]) rfl
  have hfinal : x.ablage = s₂.set (auftraege 0).coid ((Meldung.bestaetigt "o").auf e).alsJson := by
    rw [hstore, Ablage.alsBestaetigt, Ablage.schreibeFort_final he hz rfl]
  refine ⟨x, reach_of_laufe auftraege hallowed (.start ⟨a₀, rfl, rfl⟩) hrun, by rw [hphase]; rfl,
    ⟨_, by rw [hfinal, Ablage.lese_set_self], rfl⟩, fun c hc => ?_⟩
  rw [hfinal, Ablage.get_set_of_ne _ _ _ hc]
  exact (Ablage.get_schreibeFort_of_ne hc _ _).trans
    (by rw [hs₁, Ablage.get_append, Ablage.get_set_of_ne _ _ _ hc])

/-! ## The result -/

/-- Every running order of a tenant has an unconfirmed entry of its own, and no
step finishes the entry of another tenant, in every interleaving of the fan-out,
if and only if there is at most one tenant or the context has no id. -/
theorem mandanten_gebucht_iff (digest : String → String) {wuerfel : Nat → String}
    (hw : Function.Injective wuerfel) (v : Verteilung) {a₀ : Ablage} (ha : a₀.Schluesseltreu)
    (hfrisch : ∀ j, j < v.mandanten.length → a₀.get (v.auftrag digest wuerfel j).coid = none) :
    (∀ x, (verteilt (v.auftrag digest wuerfel) v.mandanten.length a₀).Reach x →
      (∀ j, j < v.mandanten.length → Gebucht (v.auftrag digest wuerfel) x j) ∧
        ∀ a x', (verteilt (v.auftrag digest wuerfel) v.mandanten.length a₀).step x a x' →
          SchliesstNurEigene (v.auftrag digest wuerfel) x a x') ↔
      v.mandanten.length ≤ 1 ∨ v.kontext.ohneId := by
  constructor
  · intro hall
    by_contra hcond
    rw [not_or] at hcond
    obtain ⟨hn, hid⟩ := hcond
    have hn' : 1 < v.mandanten.length := Nat.lt_of_not_le hn
    obtain ⟨x, hx, hlauf, herl, hrest⟩ := zwei_unter_einem_schluessel
      (v.auftrag digest wuerfel) hn' (mandantSchluessel_gleich digest hid _ _)
      (hfrisch 0 (by omega))
    obtain ⟨e, he, hk, _⟩ := (hall x hx).1 1 hn' hlauf
    obtain ⟨c, _, hlese, hz⟩ := (Ablage.mem_unbestaetigte _).mp he
    have hkey : e.clientOrderId = (v.auftrag digest wuerfel 0).coid :=
      hk.trans (mandantSchluessel_gleich digest hid _ _)
    by_cases hc : c = (v.auftrag digest wuerfel 0).coid
    · subst hc
      exact herl.ne hlese hz rfl
    · have hold : a₀.lese c = some e := by
        rwa [Ablage.lese, hrest c hc] at hlese
      exact hc ((ha c e hold).symm.trans hkey)
  · intro hcond x hx
    have hverschieden : ∀ i j, i < v.mandanten.length → j < v.mandanten.length →
        (v.auftrag digest wuerfel i).coid = (v.auftrag digest wuerfel j).coid → i = j := by
      intro i j hi hj hij
      rcases hcond with hn | hid
      · omega
      · simp only [Verteilung.auftrag, mandantSchluessel_ohneId digest hid] at hij
        exact hw hij
    have hallein := allein_of_reach (v.auftrag digest wuerfel) hverschieden hfrisch hx
    refine ⟨fun j hj hl => ?_, fun a x' hs => ?_⟩
    · obtain ⟨e, he, hz, hk, hu, hmem⟩ := (hallein j hj).2 hl
      exact ⟨e, (Ablage.mem_unbestaetigte _).mpr ⟨_, hmem, he, hz⟩, hk, hu⟩
    · exact schliesst_eigene _ hs.1 (hallein _ hs.2.1)

def beispielWuerfel (j : Nat) : String := String.ofList (List.replicate j 'u')

theorem beispielWuerfel_injective : Function.Injective beispielWuerfel := by
  intro i j h
  have hlist : List.replicate i 'u' = List.replicate j 'u' := String.ofList_injective h
  simpa using congrArg List.length hlist

def zweiMandanten : Verteilung :=
  { kontext := ⟨"k", "d"⟩, mandanten := ["a", "b"], art := "entry", symbol := "AAPL"
    seite := "buy", qty := fun _ => 3 }

/-- Two tenants under the key of their context do not keep their entries apart. -/
theorem mandanten_gebucht_zweiMandanten :
    (∀ x, (verteilt (zweiMandanten.auftrag id beispielWuerfel) 2 Ablage.leer).Reach x →
      (∀ j, j < 2 → Gebucht (zweiMandanten.auftrag id beispielWuerfel) x j) ∧
        ∀ a x', (verteilt (zweiMandanten.auftrag id beispielWuerfel) 2 Ablage.leer).step x a x' →
          SchliesstNurEigene (zweiMandanten.auftrag id beispielWuerfel) x a x') ↔
      2 ≤ 1 ∨ zweiMandanten.kontext.ohneId :=
  mandanten_gebucht_iff id beispielWuerfel_injective zweiMandanten
    (fun _ _ he => nomatch he) fun _ _ => rfl

/-- The answer to the first tenant's order is lost and the second tenant's order
is confirmed: the outbox has no unconfirmed entry left for the first. -/
theorem mandanten_teilen_eintrag :
    ¬ ∀ (v : Verteilung) (x : Lage),
      (verteilt (v.auftrag id beispielWuerfel) v.mandanten.length Ablage.leer).Reach x →
        ∀ j, j < v.mandanten.length → (x.phasen j).laufend = true →
          ∃ e ∈ x.ablage.unbestaetigte none, e.userId = v.mandanten.getD j "" := by
  intro hall
  have hrun : (laufe (zweiMandanten.auftrag id beispielWuerfel) (anfang Ablage.leer)
      [.festschreiben 0 .ganz, .festschreiben 1 .ganz, .vermerken 0 true, .vermerken 1 true,
        .tor 0 (.angenommen "o" false), .tor 1 (.angenommen "p" true), .bestaetigen 1 true]).any
      (fun x => (x.phasen 0).laufend && (x.ablage.unbestaetigte none == [])) = true := by decide
  obtain ⟨x, hx, hz⟩ := (Option.any_eq_true _ _).mp hrun
  rw [Bool.and_eq_true] at hz
  have hreach : (verteilt (zweiMandanten.auftrag id beispielWuerfel) 2 Ablage.leer).Reach x :=
    reach_of_laufe _ (by decide) (.start ⟨_, rfl, rfl⟩) hx
  obtain ⟨e, he, _⟩ := hall zweiMandanten x hreach 0 (by decide) hz.1
  rw [eq_of_beq hz.2] at he
  cases he

end Tor
