import AutonomousEngine.Outbox.Nebenlauf

/-!
# Reconciliation after a restart

`abgleichen` asks the broker about every unconfirmed intent and never sends
one.  A found order confirms the intent, a 404 discards it, any other error
leaves it alone, and an intent of an account the client does not serve is only
counted.

The broker's answers are a function of the key.  Each report takes the lock of
its key, and whether the `i`-th entry gets it is the argument `gesperrt i`.
The report's result is not looked at: the counters count the answers and not
the changes.  So a second run with the same answers may still change an entry,
namely one whose lock the first run did not get (`zweiter_lauf_aendert`), and
no other (`abgleich_ergebnis`).

The run is described against the store it starts from.  `Abgeglichen` says how
a key may stand at any moment of the loop, and each entry keeps it.
-/

namespace Outbox

/-! ## The run -/

/-- What the broker answers about a key. -/
inductive Antwort where
  | gefunden (orderId : String)
  | unbekannt
  | fehler
deriving DecidableEq, Repr

/-- A call to the broker client. -/
inductive BrokerAufruf where
  | getOrderByClientId (coid : String)
  | submitOrder (coid : String)
deriving DecidableEq, Repr

/-- The four counters. -/
structure AbgleichBericht where
  bestaetigt : Nat := 0
  verworfen : Nat := 0
  ungeklaert : Nat := 0
  fremd : Nat := 0
deriving DecidableEq, Repr

def AbgleichBericht.summe (b : AbgleichBericht) : Nat :=
  b.bestaetigt + b.verworfen + b.ungeklaert + b.fremd

def OutboxEintrag.konto (e : OutboxEintrag) : String :=
  if e.userId = "" then "global" else e.userId

/-- The reason written into a discarded intent. -/
def grundNichtBeimBroker : String := "nach Neustart nicht beim Broker — nie nachgesendet (#3449)"

/-- The state of a run: the store, the counters and the calls made. -/
structure Abgleich where
  ablage : Ablage
  bericht : AbgleichBericht := {}
  aufrufe : List BrokerAufruf := []

/-- Whether the client serves the account of an intent. -/
def zustaendig (konten : Option (List String)) (e : OutboxEintrag) : Bool :=
  konten.all fun ks => ks.contains e.konto

section Lauf

variable (konten : Option (List String)) (antwort : String → Antwort) (gesperrt : Nat → Bool)

def gleicheAb (frei : Bool) (s : Abgleich) (e : OutboxEintrag) : Abgleich :=
  if zustaendig konten e then
    let s : Abgleich :=
      { s with aufrufe := s.aufrufe ++ [.getOrderByClientId e.clientOrderId] }
    match antwort e.clientOrderId with
    | .unbekannt =>
        { s with
          ablage := (s.ablage.alsVerworfen frei e.clientOrderId grundNichtBeimBroker).2
          bericht := { s.bericht with verworfen := s.bericht.verworfen + 1 } }
    | .fehler => { s with bericht := { s.bericht with ungeklaert := s.bericht.ungeklaert + 1 } }
    | .gefunden orderId =>
        { s with
          ablage := (s.ablage.alsBestaetigt frei e.clientOrderId orderId).2
          bericht := { s.bericht with bestaetigt := s.bericht.bestaetigt + 1 } }
  else { s with bericht := { s.bericht with fremd := s.bericht.fremd + 1 } }

/-- The loop over the entries from the `i`-th on. -/
def abgleichSchleife (i : Nat) (s : Abgleich) : List OutboxEintrag → Abgleich
  | [] => s
  | e :: es => abgleichSchleife (i + 1) (gleicheAb konten antwort (gesperrt i) s e) es
termination_by structural es => es

/-- Reconciles the unconfirmed entries of a store. -/
def abgleichen (a : Ablage) : Abgleich :=
  abgleichSchleife konten antwort gesperrt 0 { ablage := a } (a.unbestaetigte none)

end Lauf

/-! ## What happens to a key -/

/-- The final report an answer stands for. -/
def Antwort.meldung : Antwort → Option Meldung
  | .gefunden orderId => some (.bestaetigt orderId)
  | .unbekannt => some (.verworfen grundNichtBeimBroker)
  | .fehler => none

theorem Ablage.Ordentlich.schluesseltreu {a : Ablage} (ha : a.Ordentlich) : a.Schluesseltreu :=
  fun _ _ he => ha.schluessel he

/-- A key is untouched, or its entry was unconfirmed and of a served account and
now is as the broker's answer says. -/
def Abgeglichen (konten : Option (List String)) (antwort : String → Antwort) (a a' : Ablage)
    (coid : String) : Prop :=
  a'.get coid = a.get coid ∨
    ∃ e ∈ a.unbestaetigte none, ∃ m, a.lese coid = some e ∧ e.clientOrderId = coid ∧
      zustaendig konten e = true ∧ (antwort coid).meldung = some m ∧
      a'.get coid = some (m.auf e).alsJson

theorem schreibeFort_erledigt {a : Ablage} {coid : String} (h : a.Erledigt coid) (g : Bool)
    (m : Meldung) : (a.schreibeFort g coid m).2 = a := by
  obtain ⟨e, he, hz⟩ := h
  cases g with
  | false => rfl
  | true => simp [Ablage.schreibeFort, he, Zustand.rang_le_of_erledigt hz m]

/-- The store after one entry: the report of the broker's answer, if there is
one. -/
theorem gleicheAb_ablage (konten : Option (List String)) (antwort : String → Antwort)
    (frei : Bool) (s : Abgleich) (e : OutboxEintrag) :
    (gleicheAb konten antwort frei s e).ablage =
      match zustaendig konten e, (antwort e.clientOrderId).meldung with
      | true, some m => (s.ablage.schreibeFort frei e.clientOrderId m).2
      | _, _ => s.ablage := by
  cases hz : zustaendig konten e with
  | false => simp [gleicheAb, hz]
  | true =>
      cases ha : antwort e.clientOrderId <;>
        simp [gleicheAb, hz, ha, Antwort.meldung, Ablage.alsVerworfen, Ablage.alsBestaetigt]

theorem Antwort.meldung_erledigt {x : Antwort} {m : Meldung} (h : x.meldung = some m) :
    m.ziel.erledigt = true := by
  cases x <;> cases h <;> rfl

section Schritte

variable {konten : Option (List String)} {antwort : String → Antwort} {gesperrt : Nat → Bool}

theorem Abgeglichen.erledigt_of_ne {a a' : Ablage} {coid : String}
    (h : Abgeglichen konten antwort a a' coid) (hne : a'.get coid ≠ a.get coid) :
    a'.Erledigt coid := by
  rcases h with h | ⟨e, _, m, _, _, _, hm, hg⟩
  · exact absurd h hne
  · exact ⟨m.auf e, by simp [Ablage.lese, hg], by simpa using Antwort.meldung_erledigt hm⟩

/-- One entry of the loop keeps how every key stands against the start. -/
theorem abgeglichen_gleicheAb {a : Ablage} (ha : a.Schluesseltreu) {e : OutboxEintrag}
    (he : e ∈ a.unbestaetigte none) {frei : Bool} {s : Abgleich}
    (hs : ∀ coid, Abgeglichen konten antwort a s.ablage coid) (coid : String) :
    Abgeglichen konten antwort a (gleicheAb konten antwort frei s e).ablage coid := by
  rw [gleicheAb_ablage]
  split
  next m hz hm =>
    by_cases hc : coid = e.clientOrderId
    · subst hc
      by_cases hsame : s.ablage.get e.clientOrderId = a.get e.clientOrderId
      · cases frei with
        | false => exact hs _
        | true =>
            obtain ⟨c, hmem, hlese, hez⟩ := (Ablage.mem_unbestaetigte a).mp he
            have hkey : e.clientOrderId = c := ha c e hlese
            rw [← hkey] at hlese
            have hlese' : s.ablage.lese e.clientOrderId = some e := by
              simpa [Ablage.lese, hsame] using hlese
            rw [Ablage.schreibeFort_final hlese' hez (Antwort.meldung_erledigt hm)]
            exact .inr ⟨e, he, m, hlese, rfl, hz, hm, by simp⟩
      · rw [schreibeFort_erledigt ((hs _).erledigt_of_ne hsame)]
        exact hs _
    · have hkeep := hs coid
      unfold Abgeglichen at hkeep ⊢
      rw [Ablage.get_schreibeFort_of_ne hc]
      exact hkeep
  next => exact hs coid

theorem abgeglichen_schleife {a : Ablage} (ha : a.Schluesseltreu) {es : List OutboxEintrag}
    (hes : ∀ e ∈ es, e ∈ a.unbestaetigte none) {i : Nat} {s : Abgleich}
    (hs : ∀ coid, Abgeglichen konten antwort a s.ablage coid) (coid : String) :
    Abgeglichen konten antwort a (abgleichSchleife konten antwort gesperrt i s es).ablage
      coid := by
  induction es generalizing i s with
  | nil => exact hs coid
  | cons e es ih =>
      refine ih (fun d hd => hes d (List.mem_cons_of_mem e hd)) fun c => ?_
      exact abgeglichen_gleicheAb ha (hes e List.mem_cons_self) hs c

variable (konten antwort gesperrt) in
/-- The loop counts every entry once, asks only, and leaves the directory. -/
theorem schleife_zaehlt (es : List OutboxEintrag) (i : Nat) (s : Abgleich) :
    (abgleichSchleife konten antwort gesperrt i s es).bericht.summe =
        s.bericht.summe + es.length ∧
      (abgleichSchleife konten antwort gesperrt i s es).ablage.read = s.ablage.read ∧
      ∀ x ∈ (abgleichSchleife konten antwort gesperrt i s es).aufrufe,
        x ∈ s.aufrufe ∨ ∃ coid, x = .getOrderByClientId coid := by
  induction es generalizing i s with
  | nil => exact ⟨rfl, rfl, fun x hx => .inl hx⟩
  | cons e es ih =>
      have hone : (gleicheAb konten antwort (gesperrt i) s e).bericht.summe =
            s.bericht.summe + 1 ∧
          (gleicheAb konten antwort (gesperrt i) s e).ablage.read = s.ablage.read ∧
          ∀ x ∈ (gleicheAb konten antwort (gesperrt i) s e).aufrufe,
            x ∈ s.aufrufe ∨ ∃ coid, x = .getOrderByClientId coid := by
        cases hz : zustaendig konten e with
        | false =>
            simp only [gleicheAb, hz, AbgleichBericht.summe]
            exact ⟨rfl, rfl, fun x hx => .inl hx⟩
        | true =>
            cases ha : antwort e.clientOrderId <;>
              simp only [gleicheAb, hz, ha, AbgleichBericht.summe, Ablage.alsVerworfen,
                Ablage.alsBestaetigt, Ablage.read_schreibeFort, if_true] <;>
              refine ⟨by omega, trivial, fun x hx => ?_⟩ <;>
              exact (List.mem_append.mp hx).imp_right fun h => ⟨_, List.mem_singleton.mp h⟩
      obtain ⟨hsum, hread, hcalls⟩ := ih (i + 1) (gleicheAb konten antwort (gesperrt i) s e)
      refine ⟨?_, hread.trans hone.2.1, fun x hx => ?_⟩
      · simp only [abgleichSchleife, hsum, hone.1, List.length_cons]
        omega
      · exact (hcalls x hx).elim (hone.2.2 x) .inr

theorem get_schleife_of_erledigt {es : List OutboxEintrag} {i : Nat} {s : Abgleich}
    {coid : String} (h : s.ablage.Erledigt coid) :
    (abgleichSchleife konten antwort gesperrt i s es).ablage.get coid = s.ablage.get coid := by
  induction es generalizing i s with
  | nil => rfl
  | cons e es ih =>
      have hone : (gleicheAb konten antwort (gesperrt i) s e).ablage.get coid =
          s.ablage.get coid := by
        rw [gleicheAb_ablage]
        split
        next m _ hm =>
          by_cases hc : coid = e.clientOrderId
          · subst hc; rw [schreibeFort_erledigt h]
          · exact Ablage.get_schreibeFort_of_ne hc _ m
        next => rfl
      have herl : (gleicheAb konten antwort (gesperrt i) s e).ablage.Erledigt coid := by
        obtain ⟨d, hd, hdz⟩ := h
        exact ⟨d, by simpa only [Ablage.lese, hone] using hd, hdz⟩
      exact (ih herl).trans hone

/-- An answered entry of a served account is final after the loop when it got
its lock. -/
theorem schleife_erreicht {a : Ablage} (ha : a.Schluesseltreu) {es : List OutboxEintrag}
    (hes : ∀ e ∈ es, e ∈ a.unbestaetigte none) {i j : Nat} {s : Abgleich}
    (hs : ∀ coid, Abgeglichen konten antwort a s.ablage coid) {e : OutboxEintrag}
    (hj : es[j]? = some e) (hfrei : gesperrt (i + j) = true)
    (hz : zustaendig konten e = true) {m : Meldung}
    (hm : (antwort e.clientOrderId).meldung = some m) :
    (abgleichSchleife konten antwort gesperrt i s es).ablage.Erledigt e.clientOrderId := by
  induction es generalizing i j s with
  | nil => cases hj
  | cons d es ih =>
      have hs' : ∀ coid, Abgeglichen konten antwort a (gleicheAb konten antwort (gesperrt i) s d).ablage
          coid := abgeglichen_gleicheAb ha (hes d List.mem_cons_self) hs
      cases j with
      | succ j =>
          refine ih (fun x hx => hes x (List.mem_cons_of_mem d hx)) hs' hj ?_
          rw [← hfrei]
          congr 1
          omega
      | zero =>
          obtain rfl : d = e := Option.some.inj hj
          have herl : (gleicheAb konten antwort (gesperrt i) s d).ablage.Erledigt
              d.clientOrderId := by
            rw [gleicheAb_ablage, hz, hm]
            by_cases hsame : s.ablage.get d.clientOrderId = a.get d.clientOrderId
            · obtain ⟨c, _, hlese, hez⟩ := (Ablage.mem_unbestaetigte a).mp (hes d List.mem_cons_self)
              rw [← ha c d hlese] at hlese
              have hlese' : s.ablage.lese d.clientOrderId = some d := by
                simpa [Ablage.lese, hsame] using hlese
              rw [Nat.add_zero] at hfrei
              show ((s.ablage.schreibeFort (gesperrt i) d.clientOrderId m).2).Erledigt _
              rw [hfrei, Ablage.schreibeFort_final hlese' hez (Antwort.meldung_erledigt hm)]
              exact ⟨m.auf d, by simp, by simpa using Antwort.meldung_erledigt hm⟩
            · have hdone := (hs _).erledigt_of_ne hsame
              show ((s.ablage.schreibeFort (gesperrt i) d.clientOrderId m).2).Erledigt _
              rwa [schreibeFort_erledigt hdone]
          obtain ⟨x, hx, hxz⟩ := herl
          refine ⟨x, ?_, hxz⟩
          simp only [abgleichSchleife, Ablage.lese] at hx ⊢
          rw [get_schleife_of_erledigt ⟨x, hx, hxz⟩]
          exact hx

end Schritte

/-! ## The result -/

theorem Abgeglichen.refl (konten : Option (List String)) (antwort : String → Antwort)
    (a : Ablage) (coid : String) : Abgeglichen konten antwort a a coid := .inl rfl

theorem abgeglichen_abgleichen {konten : Option (List String)} {antwort : String → Antwort}
    {gesperrt : Nat → Bool} {a : Ablage} (ha : a.Schluesseltreu) (coid : String) :
    Abgeglichen konten antwort a (abgleichen konten antwort gesperrt a).ablage coid :=
  abgeglichen_schleife ha (fun _ h => h) (Abgeglichen.refl konten antwort a) coid

theorem schluesseltreu_abgeglichen {konten : Option (List String)} {antwort : String → Antwort}
    {a a' : Ablage} (ha : a.Schluesseltreu) (h : ∀ coid, Abgeglichen konten antwort a a' coid) :
    a'.Schluesseltreu := by
  intro coid e he
  rcases h coid with hsame | ⟨d, _, m, _, hd, _, _, hg⟩
  · exact ha coid e (by simpa [Ablage.lese, hsame] using he)
  · simp only [Ablage.lese, hg, Option.bind_some, ausJson_alsJson, Option.some.injEq] at he
    rw [← he, Meldung.auf_clientOrderId, hd]

/-- What a first run left unconfirmed of the answered entries of served accounts
are the entries whose lock it did not get. -/
theorem liegengeblieben {konten : Option (List String)} {antwort : String → Antwort}
    {gesperrt : Nat → Bool} {a : Ablage} (ha : a.Schluesseltreu) {e : OutboxEintrag} {m : Meldung}
    (he : e ∈ (abgleichen konten antwort gesperrt a).ablage.unbestaetigte none)
    (hz : zustaendig konten e = true) (hm : (antwort e.clientOrderId).meldung = some m) :
    ∃ i, (a.unbestaetigte none)[i]? = some e ∧ gesperrt i = false := by
  have hrun : ∀ coid, Abgeglichen konten antwort a (abgleichen konten antwort gesperrt a).ablage
      coid := abgeglichen_abgleichen ha
  have hread : (abgleichen konten antwort gesperrt a).ablage.read = a.read :=
    (schleife_zaehlt konten antwort gesperrt (a.unbestaetigte none) 0 { ablage := a }).2.1
  obtain ⟨c, hc, hlese, hez⟩ := (Ablage.mem_unbestaetigte _).mp he
  have hkey : e.clientOrderId = c := schluesseltreu_abgeglichen ha hrun c e hlese
  have hnot : ¬ (abgleichen konten antwort gesperrt a).ablage.Erledigt c :=
    fun h => h.ne hlese hez rfl
  have hsame : (abgleichen konten antwort gesperrt a).ablage.get c = a.get c := by
    by_contra hne
    exact hnot ((hrun c).erledigt_of_ne hne)
  have hmem : e ∈ a.unbestaetigte none :=
    (Ablage.mem_unbestaetigte a).mpr
      ⟨c, hread ▸ hc, by simpa [Ablage.lese, hsame] using hlese, hez⟩
  obtain ⟨i, hi⟩ := List.mem_iff_getElem?.mp hmem
  refine ⟨i, hi, ?_⟩
  cases hg : gesperrt i with
  | false => rfl
  | true =>
      have hfrei : gesperrt (0 + i) = true := by rwa [Nat.zero_add]
      have hdone : (abgleichen konten antwort gesperrt a).ablage.Erledigt e.clientOrderId :=
        schleife_erreicht ha (fun _ h => h) (Abgeglichen.refl konten antwort a) hi hfrei hz hm
      rw [hkey] at hdone
      exact absurd hdone hnot

/-- A run of the reconciliation only asks the broker, leaves every key alone or
moves it as the answer to it says, and counts every unconfirmed entry once.  A
second run with the same answers changes only keys whose lock the first run did
not get. -/
theorem abgleich_ergebnis (konten : Option (List String)) (antwort : String → Antwort)
    (gesperrt : Nat → Bool) {a : Ablage} (ha : a.Schluesseltreu) :
    (∀ x ∈ (abgleichen konten antwort gesperrt a).aufrufe, ∃ coid,
        x = .getOrderByClientId coid) ∧
      (∀ coid, Abgeglichen konten antwort a (abgleichen konten antwort gesperrt a).ablage coid) ∧
      (abgleichen konten antwort gesperrt a).ablage.read = a.read ∧
      (abgleichen konten antwort gesperrt a).bericht.summe = (a.unbestaetigte none).length ∧
      ∀ gesperrt' coid,
        (abgleichen konten antwort gesperrt' (abgleichen konten antwort gesperrt a).ablage).ablage.get
            coid ≠ (abgleichen konten antwort gesperrt a).ablage.get coid →
          ∃ i e, (a.unbestaetigte none)[i]? = some e ∧ e.clientOrderId = coid ∧
            gesperrt i = false := by
  have hrun : ∀ coid, Abgeglichen konten antwort a (abgleichen konten antwort gesperrt a).ablage
      coid := abgeglichen_abgleichen ha
  obtain ⟨hsum, hread, hcalls⟩ :=
    schleife_zaehlt konten antwort gesperrt (a.unbestaetigte none) 0 { ablage := a }
  refine ⟨fun x hx => (hcalls x hx).resolve_left List.not_mem_nil, hrun, hread, ?_, ?_⟩
  · rw [abgleichen, hsum]
    simp [AbgleichBericht.summe]
  · intro gesperrt' coid hne
    have hsecond : Abgeglichen konten antwort (abgleichen konten antwort gesperrt a).ablage
        (abgleichen konten antwort gesperrt' (abgleichen konten antwort gesperrt a).ablage).ablage
        coid := abgeglichen_abgleichen (schluesseltreu_abgeglichen ha hrun) coid
    obtain ⟨e, he, m, _, hk, hz, hm, _⟩ := hsecond.resolve_left hne
    obtain ⟨i, hi, hg⟩ := liegengeblieben ha he hz (hk ▸ hm)
    exact ⟨i, e, hi, hk, hg⟩

theorem kaufIntent_schluesseltreu :
    (Ablage.leer.festschreiben true kaufIntent).2.Schluesseltreu := by
  intro coid e he
  by_cases hc : coid = "k"
  · subst hc
    have hk : (Ablage.leer.festschreiben true kaufIntent).2.lese "k" = some kaufIntent := by decide
    rw [hk] at he
    cases he
    rfl
  · have hnone : (Ablage.leer.festschreiben true kaufIntent).2.lese coid = none :=
      Ablage.lese_set_of_ne Ablage.leer "k" kaufIntent.alsJson hc
    rw [hnone] at he
    cases he

/-- A store with one intent, reconciled by a client that knows no order. -/
theorem abgleich_ergebnis_kaufIntent :
    Abgeglichen none (fun _ => .unbekannt) (Ablage.leer.festschreiben true kaufIntent).2
      (abgleichen none (fun _ => .unbekannt) (fun _ => true)
        (Ablage.leer.festschreiben true kaufIntent).2).ablage "k" :=
  (abgleich_ergebnis none (fun _ => .unbekannt) (fun _ => true)
    kaufIntent_schluesseltreu).2.1 "k"

/-- A second run with the same answers can change an entry: the first run did
not get its lock. -/
theorem zweiter_lauf_aendert :
    ¬ ∀ (konten : Option (List String)) (antwort : String → Antwort)
      (gesperrt gesperrt' : Nat → Bool) (a : Ablage), a.Schluesseltreu → ∀ coid,
        (abgleichen konten antwort gesperrt' (abgleichen konten antwort gesperrt a).ablage).ablage.get
          coid = (abgleichen konten antwort gesperrt a).ablage.get coid := by
  intro hall
  have hne := hall none (fun _ => .unbekannt) (fun _ => false) (fun _ => true)
    (Ablage.leer.festschreiben true kaufIntent).2 kaufIntent_schluesseltreu "k"
  revert hne
  decide

end Outbox
