import AutonomousEngine.Absendung.Moeglich

/-!
# What a run reports

A run says whether its order has reached the broker, and writes a record when
the signal was skipped.  Both are true of a purchase.  A sale reads fields of the
state that only a purchase has set: when the position is empty, when the last
attempt is rejected, and when the order is cancelled.  It then ends in an error
about the field, also with an order at the broker.

Where none of this happens the outcome is true (`ausgang_treu`).
-/

namespace Absendung

open Basis
open Gateway (Auftrag)
open Verkauf (Quelle)

/-! ## The outcome -/

/-- Whether a submission of the order of the event has returned an order: one that the
broker or the dry run has placed, or one that was there. -/
def Erhalten (l : Verlauf) : Prop :=
  ∃ z : Zweck, z.eigen = true ∧
    ((∃ r id, ⟨.submitOrder z r, .ok id⟩ ∈ l) ∨ (∃ r id, ⟨.submitSchatten z r, id⟩ ∈ l) ∨
      ∃ id, ⟨.uebernommen z id, ()⟩ ∈ l)

/-- Whether a question with its answer returns an order of the event. -/
def bringt : (Σ i : Frage, i.Antwort) → Bool
  | ⟨.submitOrder z _, .ok _⟩ => z.eigen
  | ⟨.submitSchatten z _, _⟩ => z.eigen
  | ⟨.uebernommen z _, _⟩ => z.eigen
  | _ => false

theorem erhalten_iff {l : Verlauf} : Erhalten l ↔ ∃ e ∈ l, bringt e = true := by
  refine ⟨?_, ?_⟩
  · rintro ⟨z, hz, ⟨r, id, hmem⟩ | ⟨r, id, hmem⟩ | ⟨id, hmem⟩⟩
    · exact ⟨_, hmem, hz⟩
    · exact ⟨_, hmem, hz⟩
    · exact ⟨_, hmem, hz⟩
  · rintro ⟨⟨i, a⟩, hmem, hb⟩
    cases i with
    | submitOrder z r =>
      cases a with
      | ok id => exact ⟨z, hb, .inl ⟨r, id, hmem⟩⟩
      | error f => cases hb
    | submitSchatten z r => exact ⟨z, hb, .inr (.inl ⟨r, a, hmem⟩)⟩
    | uebernommen z id => exact ⟨z, hb, .inr (.inr ⟨id, hmem⟩)⟩
    | _ => cases hb

theorem erhalten_append {l : Verlauf} {e : Σ i : Frage, i.Antwort} :
    Erhalten (l ++ [e]) ↔ Erhalten l ∨ bringt e = true := by
  simp [erhalten_iff, or_and_right, exists_or]

/-! ## The condition -/

/-- Whether an error is one of the broker's interface. -/
def Fremdfehler.istApiError : Fremdfehler → Bool
  | .apiError _ _ => true
  | .sonst => false

/-- What a sale must not meet: an empty position, a last attempt that fails with an
API error unless the order that exists is found, and a cancellation. -/
def Gebunden (seite : Seite) (_ : Buch) : (i : Frage) → i.Antwort → Buch → Prop
  | .bestand _, a, _ => zeigtLeer a = false
  | .submitOrder z r, .error f, _ => seite = .sell → z.massgeblich = true → z.letzter = true →
      f.istApiError = true → istDuplikat f = true ∧ (schluessel r).isSome = true
  | .getOrderByClientId z _ symbol, a, _ => seite = .sell → z.massgeblich = true →
      z.letzter = true → findet symbol a = true
  | .cancelOrderById z _, _, _ => z.eigen = true → seite = .buy
  | _, _, _ => True

/-! ## The invariant -/

/-- The summary says what the reports say, and no sale comes to an unset field. -/
structure Treu (k : Rahmen) (x : Zwischenstand) (l : Verlauf) : Prop where
  leer : x.leer = false
  versuch : ∀ z f, x.eigen.versuch = some (z, f) → z.massgeblich = true
  gescheitert : k.seite = .sell → ∀ z s d, x.eigen = .gescheitert z (.apiError s d) →
    z.letzter = false
  storniert : k.seite = .sell → x.storniert = false
  nachgereicht : x.nachgereicht = true → x.eigen.erhalten = true
  ungebunden : x.fehler.any Ende.ungebunden = false
  fehler : ∀ n, ⟨.fehler (.unboundLocal n), ()⟩ ∉ l
  erhalten : x.eigen.erhalten = true ↔ Erhalten l
  uebersprungen : x.uebersprungen = true → x.eigen.erhalten = false
  skipped : ⟨.auditSkipped, ()⟩ ∈ l → x.uebersprungen = true

theorem Zweck.eigen_of_massgeblich {z : Zweck} (h : z.massgeblich = true) : z.eigen = true := by
  cases z with
  | auftrag => rfl
  | nachAblehnung => rfl
  | _ => cases h

section

variable {k : Rahmen} {x y : Zwischenstand} {l : Verlauf} {i : Frage} {a : i.Antwort}

/-- A step that is not about the order of the event. -/
theorem Treu.gleich (h : Treu k x l) (hleer : y.leer = false) (heigen : y.eigen = x.eigen)
    (hstorniert : k.seite = .sell → y.storniert = x.storniert)
    (hnach : y.nachgereicht = true → x.eigen.erhalten = true)
    (hfehler : y.fehler.any Ende.ungebunden = false)
    (hueber : y.uebersprungen = true → x.eigen.erhalten = false)
    (hskip : x.uebersprungen = true → y.uebersprungen = true)
    (hi : bringt ⟨i, a⟩ = true → x.eigen.erhalten = true)
    (hmeldung : ∀ n, i ≠ .fehler (.unboundLocal n))
    (hskipped : i = .auditSkipped → y.uebersprungen = true) :
    Treu k y (l ++ [⟨i, a⟩]) where
  leer := hleer
  versuch := heigen ▸ h.versuch
  gescheitert := heigen ▸ h.gescheitert
  storniert hs := (hstorniert hs).trans (h.storniert hs)
  nachgereicht := heigen ▸ hnach
  ungebunden := hfehler
  fehler n hmem := by
    rcases List.mem_append.mp hmem with hmem | hmem
    · exact h.fehler n hmem
    · exact hmeldung n (Sigma.mk.inj (List.mem_singleton.mp hmem)).1.symm
  erhalten := by
    rw [erhalten_append, heigen, ← h.erhalten]
    exact (or_iff_left_of_imp hi).symm
  uebersprungen := heigen ▸ hueber
  skipped hmem := by
    rcases List.mem_append.mp hmem with hmem | hmem
    · exact hskip (h.skipped hmem)
    · exact hskipped (Sigma.mk.inj (List.mem_singleton.mp hmem)).1.symm

/-- A step about the order of the event, while nothing was skipped. -/
theorem Treu.eigenes {eigen : Eigen} (h : Treu k x l) (heigen : y.eigen = eigen)
    (hrest : y.leer = x.leer ∧ y.storniert = x.storniert ∧ y.nachgereicht = x.nachgereicht ∧
      y.fehler = x.fehler ∧ y.uebersprungen = x.uebersprungen)
    (hvorher : x.eigen.erhalten = false) (hueber : eigen.erhalten = true → x.uebersprungen = false)
    (hversuch : ∀ z f, eigen.versuch = some (z, f) → z.massgeblich = true)
    (hgescheitert : k.seite = .sell → ∀ z s d, eigen = .gescheitert z (.apiError s d) →
      z.letzter = false)
    (hi : bringt ⟨i, a⟩ = eigen.erhalten) (hmeldung : ∀ n, i ≠ .fehler (.unboundLocal n))
    (hskipped : i ≠ .auditSkipped) : Treu k y (l ++ [⟨i, a⟩]) := by
  obtain ⟨hleer, hstorniert, hnach, hfehler, hueberspr⟩ := hrest
  subst heigen
  refine ⟨hleer.trans h.leer, hversuch, hgescheitert, fun hs => hstorniert.trans (h.storniert hs),
    fun hn => ?_, hfehler ▸ h.ungebunden, fun n hmem => ?_, ?_, fun hu => ?_, fun hmem => ?_⟩
  · rw [h.nachgereicht (hnach ▸ hn)] at hvorher
    cases hvorher
  · rcases List.mem_append.mp hmem with hmem | hmem
    · exact h.fehler n hmem
    · exact hmeldung n (Sigma.mk.inj (List.mem_singleton.mp hmem)).1.symm
  · rw [erhalten_append, ← h.erhalten, hvorher, hi]
    simp
  · rw [hueberspr] at hu
    cases he : y.eigen.erhalten with
    | false => rfl
    | true =>
        rw [hueber he] at hu
        cases hu
  · rw [hueberspr]
    rcases List.mem_append.mp hmem with hmem | hmem
    · exact h.skipped hmem
    · exact absurd (Sigma.mk.inj (List.mem_singleton.mp hmem)).1.symm hskipped

theorem bringt_of_still (hi : i.still = true) (a : i.Antwort) : bringt ⟨i, a⟩ = false := by
  cases i with
  | submitOrder => cases hi
  | uebernommen => cases hi
  | submitSchatten z r => simpa [bringt, Frage.still] using hi
  | _ => rfl

/-- An attempt on the order of the event. -/
theorem Treu.versuche {z : Zweck} {r : Auftrag} {a : Except Fremdfehler Nat} {b b' : Buch}
    (h : Treu k x l) (hz : z.massgeblich = true) (heigen : y.eigen = .nach z r a)
    (hrest : y.leer = x.leer ∧ y.storniert = x.storniert ∧ y.nachgereicht = x.nachgereicht ∧
      y.fehler = x.fehler ∧ y.uebersprungen = x.uebersprungen)
    (hvorher : x.eigen.erhalten = false) (hueber : x.uebersprungen = false)
    (hG : Gebunden k.seite b (.submitOrder z r) a b') :
    Treu k y (l ++ [⟨.submitOrder z r, a⟩]) := by
  refine h.eigenes heigen hrest hvorher (fun _ => hueber)
    (fun z' f hv => (Eigen.versuch_nach hv).1 ▸ hz) (fun hs z' s d he => ?_) ?_ nofun nofun
  · obtain ⟨rfl, rfl, hno⟩ := Eigen.nach_eq_gescheitert he
    cases hl : z'.letzter with
    | false => rfl
    | true =>
        obtain ⟨hdup, hkey⟩ := hG hs hz hl rfl
        rw [hdup, hkey] at hno
        cases hno
  · cases a with
    | ok id => exact Zweck.eigen_of_massgeblich hz
    | error f =>
        have hnach : (Eigen.nach z r (.error f)).erhalten = false := by
          unfold Eigen.nach
          dsimp only
          split <;> rfl
        rw [hnach]
        rfl

theorem Treu.schritt {b b' : Buch} (h : Treu k x l) (hN : Schritt k x i a y)
    (hG : Gebunden k.seite b i a b') : Treu k y (l ++ [⟨i, a⟩]) := by
  have hgleich {y' : Zwischenstand} (hi : bringt ⟨i, a⟩ = false) (hleer : y'.leer = x.leer)
      (heigen : y'.eigen = x.eigen) (hstorniert : y'.storniert = x.storniert)
      (hnach : y'.nachgereicht = x.nachgereicht) (hfehler : y'.fehler = x.fehler)
      (hueber : y'.uebersprungen = x.uebersprungen) (hmeldung : ∀ n, i ≠ .fehler (.unboundLocal n))
      (hskipped : i ≠ .auditSkipped) : Treu k y' (l ++ [⟨i, a⟩]) :=
    h.gleich (hleer.trans h.leer) heigen (fun _ => hstorniert) (fun hn => h.nachgereicht (hnach ▸ hn))
      (hfehler ▸ h.ungebunden) (fun hu => h.uebersprungen (hueber ▸ hu)) (fun hu => hueber ▸ hu)
      (fun hb => absurd (hi.symm.trans hb) Bool.false_ne_true) hmeldung
      fun hs => absurd hs hskipped
  cases hN with
  | still _ hi =>
      refine hgleich (bringt_of_still hi a) rfl rfl rfl rfl rfl rfl (fun n he => ?_) fun he => ?_
      · rw [he] at hi
        cases hi
      · rw [he] at hi
        cases hi
  | bestand _ _ =>
      exact h.gleich hG rfl (fun _ => rfl) h.nachgereicht h.ungebunden h.uebersprungen id nofun nofun
        nofun
  | @auftrag _ q istLimit r a heigen hueber =>
      exact h.versuche rfl rfl ⟨rfl, rfl, rfl, rfl, rfl⟩ (by rw [heigen]; rfl) hueber hG
  | @schatten _ q istLimit r a heigen hueber =>
      exact h.eigenes rfl ⟨rfl, rfl, rfl, rfl, rfl⟩ (by rw [heigen]; rfl) (fun _ => hueber) nofun nofun
        rfl nofun nofun
  | @nachAblehnung _ q r s d a _ heigen hueber =>
      exact h.versuche rfl rfl ⟨rfl, rfl, rfl, rfl, rfl⟩ (by rw [heigen]; rfl) hueber hG
  | @nachgeschlagen _ z f coid symbol a heigen =>
      have hz := h.versuch z f (by rw [heigen]; rfl)
      refine h.eigenes rfl ⟨rfl, rfl, rfl, rfl, rfl⟩ (by rw [heigen]; rfl) (fun he => ?_)
        (fun z' f' hv => ?_) (fun hs z' s d he => ?_) ?_ nofun nofun
      · cases hfund : fund symbol a with
        | none => rw [hfund] at he; cases he
        | some id => rw [hfund] at he; cases he
      · rw [Eigen.versuch_nachgeschlagen] at hv
        obtain ⟨rfl, rfl⟩ := Prod.mk.inj (Option.some.inj hv)
        exact hz
      · cases hl : z'.letzter with
        | false => rfl
        | true =>
            cases hfund : fund symbol a with
            | some id => rw [hfund] at he; cases he
            | none =>
                rw [hfund] at he
                cases he
                have hfindet := hG hs hz hl
                rw [findet, hfund] at hfindet
                cases hfindet
      · cases fund symbol a <;> rfl
  | @uebernommen _ z f id heigen _ hueber =>
      have hz := h.versuch z f (by rw [heigen]; rfl)
      exact h.eigenes rfl ⟨rfl, rfl, rfl, rfl, rfl⟩ (by rw [heigen]; rfl) (fun _ => hueber) nofun nofun
        (Zweck.eigen_of_massgeblich hz) nofun nofun
  | @storno _ z _ _ _ hz =>
      refine h.gleich h.leer rfl (fun hs => ?_) h.nachgereicht h.ungebunden h.uebersprungen id nofun
        nofun nofun
      rw [hG hz] at hs
      cases hs
  | nachFrist _ _ heigen =>
      have hda : x.eigen.erhalten = true := by rw [heigen]; rfl
      exact h.gleich h.leer rfl (fun _ => rfl) (fun _ => hda) h.ungebunden h.uebersprungen id
        (fun _ => hda) nofun nofun
  | nachFristUebernommen _ hnach =>
      exact h.gleich h.leer rfl (fun _ => rfl) h.nachgereicht h.ungebunden h.uebersprungen id
        (fun _ => h.nachgereicht hnach) nofun nofun
  | aufgeschoben a _ _ =>
      refine hgleich ?_ rfl rfl rfl rfl rfl rfl nofun nofun
      cases a <;> rfl
  | verdraengung a _ _ _ _ =>
      refine hgleich ?_ rfl rfl rfl rfl rfl rfl nofun nofun
      cases a <;> rfl
  | rueckkauf a _ _ =>
      refine hgleich ?_ rfl rfl rfl rfl rfl rfl nofun nofun
      cases a <;> rfl
  | @fehler _ e _ hmoeglich =>
      have he : e.ungebunden = false := by
        cases e with
        | unboundLocal n =>
          cases n with
          | sizingTrace =>
              have hleer := hmoeglich.2
              rw [h.leer] at hleer
              cases hleer
          | symbolToClose =>
              obtain ⟨hs, hst | ⟨z, s, d, heigen, hl⟩⟩ := hmoeglich
              · rw [h.storniert hs] at hst
                cases hst
              · rw [h.gescheitert hs z s d heigen] at hl
                cases hl
        | _ => rfl
      refine h.gleich h.leer rfl (fun _ => rfl) h.nachgereicht he h.uebersprungen id nofun
        (fun n hn => ?_) nofun
      cases hn
      cases he
  | uebersprungen hgrund =>
      have herhalten : x.eigen.erhalten = false := by
        rcases hgrund with herh | hun
        · exact herh
        · rw [h.ungebunden] at hun
          cases hun
      exact h.gleich h.leer rfl (fun _ => rfl) h.nachgereicht h.ungebunden (fun _ => herhalten)
        (fun _ => rfl) nofun nofun fun _ => rfl
  | _ => exact hgleich rfl rfl rfl rfl rfl rfl rfl nofun nofun

end

/-- What a run reports is true: the record that the signal was skipped stands for no
order, no error is about an unset field, and the result says whether there is an
order. -/
structure Wahrhaftig (c : Conf Buch Frage Frage.Antwort (Except Ende Bool)) : Prop where
  skipped : ⟨.auditSkipped, ()⟩ ∈ c.log → ¬ Erhalten c.log
  fehler : ∀ n, ⟨.fehler (.unboundLocal n), ()⟩ ∉ c.log
  ergebnis : ∀ b, c.rest = .done (.ok b) → (b = true ↔ Erhalten c.log)
  ausnahme : ∀ e, c.rest = .done (.error e) → ¬ Erhalten c.log

/-- A run reports what is true, unless a sale comes to a field that it has not set. -/
theorem ausgang_treu {u : Umfeld} {tenant : Tenant} {event : Signal} {source : Quelle}
    {c : Conf Buch Frage Frage.Antwort (Except Ende Bool)}
    (h : ((mandantenlauf u tenant event source).restrict
      (World.answers (Gebunden event.seite))).Reach c) : Wahrhaftig c := by
  have h0 : Treu (rahmen u event) {} [] :=
    ⟨rfl, nofun, nofun, fun _ => rfl, nofun, rfl, fun _ hmem => absurd hmem List.not_mem_nil,
      iff_of_false nofun fun ⟨_, _, hl⟩ => by simp at hl, nofun,
      fun hmem => absurd hmem List.not_mem_nil⟩
  obtain ⟨x, hx, hrest⟩ := World.sound (I := fun x _ l => Treu (rahmen u event) x l)
    (fun _ _ => h0) (fun hI _ => hI) (fun hI hN _ hG => hI.schritt hN hG)
    (executeTenantOrder_follows (rahmen_passt u event source) tenant) h
  have hende (b : Bool) (hb : Beendet b x) : b = true ↔ Erhalten c.log := by
    rcases hb.erhalten with rfl | hun
    · exact hx.erhalten
    · rw [hx.ungebunden] at hun
      cases hun
  refine ⟨fun hmem herh => ?_, hx.fehler, fun b hb => ?_, fun e he herh => ?_⟩
  · have hnicht := hx.uebersprungen (hx.skipped hmem)
    rw [hx.erhalten.mpr herh] at hnicht
    cases hnicht
  · rw [hb] at hrest
    exact hende b hrest
  · rw [he] at hrest
    cases (hende false hrest).mpr herh

theorem offen_gebunden (seite : Seite) : Offen (Gebunden seite) := fun _ i _ _ hi => by
  cases i with
  | bestand => cases hi
  | submitOrder => cases hi
  | cancelOrderById => cases hi
  | getOrderByClientId z coid symbol =>
      intro _ hz _
      rw [Frage.still, hz] at hi
      cases hi
  | _ => exact trivial

/-- A sale of ten shares that is executed before it is polled. -/
theorem ausgang_treu_ausgefuehrt : ∃ c : Conf Buch Frage Frage.Antwort (Except Ende Bool),
    c.rest = .done (.ok true) ∧ Erhalten c.log ∧ Wahrhaftig c := by
  have hG := offen_gebunden .sell
  have hcan : welt.Can (Gebunden .sell) (fun _ _ => False)
      (executeTenantOrder (beispielUmfeld false) beispielTenant (beispielSignal .sell) .ai)
      (fun b _ _ => b = true) (fun _ _ _ => False) [] [] := by
    refine can_executeTenantOrder hG fun l₁ _ => ?_
    refine can_vorlauf_sell hG rfl (by norm_num [beispielSignal]) ⟨10, 100⟩
      (by norm_num) (by simp [Gebunden, zeigtLeer]) trivial fun l₂ _ => ?_
    have hsize : (0 : Rat) < freigegebeneMenge (beispielSignal .sell) .ai 10 := by norm_num
    refine can_abgang hG rfl (by decide) hsize rfl true (by norm_num [beispielSignal, beispielUmfeld])
      (by norm_num [abfragen, beispielUmfeld]) (.ok (some ⟨.filled, .zahl 10⟩)) fun r hr => ?_
    have hqty : r.qty = 10 := hr.trans (freigegebeneMenge_ai (beispielSignal .sell) 10)
    have hr0 : 0 < r.qty := by rw [hqty]; norm_num
    refine ⟨_, _, ⟨⟨hr0, rfl⟩, rfl⟩, trivial, Buch.weiter_map _ Order.weiter_ausgefuehrt, ⟨rfl, ?_⟩,
      trivial, fun _ _ _ _ _ => ⟨rfl, fun _ _ => rfl⟩⟩
    rintro st hst
    cases hst
    refine ⟨_, rfl, ⟨fun x hx => ?_, nofun, fun _ => rfl, fun _ => rfl⟩⟩
    cases hx
    exact hqty
  obtain ⟨c, b, hc, hres, rfl⟩ := mandantenlauf_reach_ergebnis hcan
  have htreu := ausgang_treu hc
  exact ⟨c, hres, (htreu.ergebnis true hres).mp rfl, htreu⟩

/-- A sale is at the broker, and is cancelled since no poll was answered.  The run ends
in the error about the field, with a record that the signal was skipped. -/
theorem ausgang_unwahr : ∃ c, (mandantenlauf (beispielUmfeld false) beispielTenant
    (beispielSignal .sell) .ai).Reach c ∧ c.rest = .done (.ok false) ∧ Erhalten c.log ∧
      ⟨.auditSkipped, ()⟩ ∈ c.log ∧ ⟨.fehler (.unboundLocal .symbolToClose), ()⟩ ∈ c.log := by
  have hcan : welt.Can (fun _ _ _ _ => True) (fun _ _ => False)
      (executeTenantOrder (beispielUmfeld false) beispielTenant (beispielSignal .sell) .ai)
      (fun b _ l => b = false ∧ Erhalten l ∧ ⟨.auditSkipped, ()⟩ ∈ l ∧
        ⟨.fehler (.unboundLocal .symbolToClose), ()⟩ ∈ l) (fun _ _ _ => False) [] [] := by
    refine can_executeTenantOrder offen_true fun l₁ _ => ?_
    refine can_vorlauf_sell offen_true rfl (by norm_num [beispielSignal]) ⟨10, 100⟩
      (by norm_num) trivial trivial fun l₂ _ => ?_
    have hsize : (0 : Rat) < freigegebeneMenge (beispielSignal .sell) .ai 10 := by norm_num
    refine can_abgang offen_true rfl (by decide) hsize rfl true
      (by norm_num [beispielSignal, beispielUmfeld]) (by norm_num [abfragen, beispielUmfeld])
      (.error .sonst) fun r hr => ?_
    have hr0 : 0 < r.qty := hr ▸ hsize
    refine ⟨_, _, ⟨⟨hr0, rfl⟩, rfl⟩, trivial, Buch.weiter_map _ Order.weiter_abgelaufen, ⟨rfl, nofun⟩,
      trivial, fun req l₃ _ hmem hexit => ?_⟩
    refine World.can_bind ?_
    unfold schrittMandantStorno
    refine World.can_bind (can_frage (.ok ()) rfl trivial fun l₄ h₄ _ => World.can_bind ?_)
    have hrest : sendeRest (beispielUmfeld false) beispielTenant (beispielSignal .sell)
        { size := freigegebeneMenge (beispielSignal .sell) .ai 10, heldBrokerQty := |10| } req
        (nachAbfrage none (.error .sonst)) = return () := by
      simp [sendeRest, nachAbfrage, exitFailsafeRemainingQty]
    rw [hrest]
    refine World.can_pure (World.can_bind (World.can_bind (World.can_throw ?_)))
    refine ⟨nofun, trivial, trivial, fun l₅ h₅ hfehler hskipped => ?_⟩
    exact ⟨rfl, ⟨_, rfl, .inl ⟨_, _, h₅ (h₄ hmem)⟩⟩, hskipped, hfehler⟩
  obtain ⟨c, b, hc, hres, rfl, herhalten, hskipped, hfehler⟩ := mandantenlauf_reach_ergebnis hcan
  exact ⟨c, hc.of_restrict, hres, herhalten, hskipped, hfehler⟩

end Absendung
