import AutonomousEngine.Idempotenz.Schluessel
import AutonomousEngine.Reconciliation.Ausfuehrungen

/-!
# The decision behind a fill

A fill is entered under what stands behind the second hyphen of its order's key,
if the part between the hyphens is a number.  That is the decision exactly for
the keys that carry the decision there.  The digest form carries a digest
there, the keys of the gateway carry the symbol with it, and the key of an
approval may look as if it carried something.

`Treu` is what a fill should say: the decision, or the whole key when the key
does not contain the decision.  `rueckverfolgung_iff` settles it for the four
ways a key is made.
-/

namespace Reconciliation

open Basis Idempotenz

/-! ## Reading a key -/

/-- The key has a number between its first two hyphens and something behind
them. -/
def Gegliedert (t : Textlesung) (key : String) (rest : List Char) : Prop :=
  ∃ a b : List Char, '-' ∉ a ∧ '-' ∉ b ∧ t.isdigit (String.ofList b) = true ∧ rest ≠ [] ∧
    key.toList = a ++ '-' :: (b ++ '-' :: rest)

section

variable {t : Textlesung} {key orderId : String}

theorem Gegliedert.unique {r r' : List Char} (h : Gegliedert t key r) (h' : Gegliedert t key r') :
    r = r' := by
  obtain ⟨a, b, ha, hb, -, -, hk⟩ := h
  obtain ⟨a', b', ha', hb', -, -, hk'⟩ := h'
  obtain ⟨rfl, hrest⟩ := append_cons_inj_of_notMem_left ha ha' (hk.symm.trans hk')
  exact (append_cons_inj_of_notMem_left hb hb' hrest).2

/-- What is read from a key of that form. -/
theorem decisionVon_of_gegliedert {rest : List Char} (h : Gegliedert t key rest) :
    decisionVon t key orderId = String.ofList rest := by
  obtain ⟨a, b, ha, hb, hd, hr, hk⟩ := h
  unfold decisionVon
  rw [splitAtMost_two_eq_iff.mpr ⟨ha, hb, hk⟩]
  simp [hd, hr]

theorem decisionVon_of_not_gegliedert (h : ∀ rest, ¬Gegliedert t key rest) (hne : key ≠ "") :
    decisionVon t key orderId = key := by
  unfold decisionVon
  split
  next a b rest hs =>
    obtain ⟨ha, hb, hk⟩ := splitAtMost_two_eq_iff.mp hs
    split
    next hform =>
      obtain ⟨hd, hr⟩ : t.isdigit (String.ofList b) = true ∧ rest ≠ [] := by simpa using hform
      exact absurd ⟨a, b, ha, hb, hd, hr, hk⟩ (h rest)
    next => simp
  next => simp [hne]

/-- What a fill says of the decision behind its order: the decision, or the
whole key when that does not contain it. -/
def Treu (gelesen key decisionId : String) : Prop :=
  gelesen = decisionId ∨ ¬decisionId.toList <:+: key.toList ∧ gelesen = key

/-- Where the key of an order leads back to the decision. -/
def Lesbar (t : Textlesung) (key decisionId : String) : Prop :=
  Gegliedert t key decisionId.toList ∨
    (∀ rest, ¬Gegliedert t key rest) ∧ (key = decisionId ∨ ¬decisionId.toList <:+: key.toList)

/-- A key with a part behind the number leads back to exactly that. -/
theorem treu_iff_of_gegliedert {rest : List Char} {decisionId : String}
    (h : Gegliedert t key rest) :
    Treu (decisionVon t key orderId) key decisionId ↔ String.ofList rest = decisionId := by
  rw [decisionVon_of_gegliedert h]
  refine ⟨fun hb => hb.resolve_right fun hc => ?_, .inl⟩
  obtain ⟨a, b, -, -, -, -, hk⟩ := h
  have hlen : key.toList.length = rest.length := by rw [← hc.2, String.toList_ofList]
  rw [hk] at hlen
  simp at hlen
  omega

theorem treu_iff_of_not_gegliedert {decisionId : String} (h : ∀ rest, ¬Gegliedert t key rest)
    (hne : key ≠ "") :
    Treu (decisionVon t key orderId) key decisionId ↔
      key = decisionId ∨ ¬decisionId.toList <:+: key.toList := by
  rw [decisionVon_of_not_gegliedert h hne, Treu]
  simp

theorem treu_iff_lesbar (decisionId : String) (hne : key ≠ "") :
    Treu (decisionVon t key orderId) key decisionId ↔ Lesbar t key decisionId := by
  by_cases h : ∃ rest, Gegliedert t key rest
  · obtain ⟨rest, hr⟩ := h
    rw [treu_iff_of_gegliedert hr]
    constructor
    · rintro rfl
      exact .inl (by simpa using hr)
    · rintro (hd | ⟨hnone, -⟩)
      · rw [hr.unique hd, String.ofList_toList]
      · exact absurd hr (hnone rest)
  · have hnone : ∀ rest, ¬Gegliedert t key rest := fun rest hr => h ⟨rest, hr⟩
    rw [treu_iff_of_not_gegliedert hnone hne]
    exact ⟨fun hd => .inr ⟨hnone, hd⟩, fun hd => (hd.resolve_left (hnone _)).2⟩

end

/-! ## The keys that are made -/

/-- The text starts with a number, a hyphen and something behind it. -/
def MitNummer (t : Textlesung) (s : String) (rest : List Char) : Prop :=
  ∃ b : List Char, '-' ∉ b ∧ t.isdigit (String.ofList b) = true ∧ rest ≠ [] ∧
    s.toList = b ++ '-' :: rest

theorem gegliedert_append_iff {t : Textlesung} {leg s : String} (hleg : '-' ∉ leg.toList)
    {rest : List Char} : Gegliedert t (leg ++ "-" ++ s) rest ↔ MitNummer t s rest := by
  constructor
  · rintro ⟨a, b, ha, hb, hd, hr, hk⟩
    have hk' : leg.toList ++ '-' :: s.toList = a ++ '-' :: (b ++ '-' :: rest) := by
      rw [← hk]
      simp
    exact ⟨b, hb, hd, hr, (append_cons_inj_of_notMem_left hleg ha hk').2⟩
  · rintro ⟨b, hb, hd, hr, hs⟩
    exact ⟨leg.toList, b, hleg, hb, hd, hr, by simp [hs]⟩

def Textlesung.LiestZiffern (t : Textlesung) : Prop :=
  ∀ s, s ≠ "" → (∀ c ∈ s.toList, c.isDigit = true) → t.isdigit s = true

/-- A way to make the key of an order. -/
inductive Schreiber where
  | abgeleitet (attempt : Int)
  | tor (request : Request)
  | naechster (key : String)
  | freigabe (approvalId : String)
deriving DecidableEq, Repr

section

variable (digest : String → String) (z : Ziffern) (t : Textlesung)

def Schreiber.schluessel (i : Intent) : Schreiber → Option String
  | .abgeleitet attempt =>
      (deriveClientOrderId digest i.decisionId (legText i.intentKind) attempt).toOption
  | .tor request => (mitSchluessel digest i request).clientOrderId.filter (· ≠ "")
  | .naechster key => (nextAttempt digest z key).toOption
  | .freigabe approvalId => (deriveApprovalClientOrderId approvalId).toOption

/-- When the key leads back to the decision of its intent.
A derived key does when it carries the decision literally.  A key that the
gateway derives does not, and neither does the next attempt of a key without
the form of a derived one.  The next attempt of a derived key carries what there
is room for.  In the digest forms the decision would have to be that very digest
text.  A key that was set before is as readable as it is.  The key of an
approval is read as a whole unless the approval id, as far as it fits, starts
like a numbered key. -/
def Schreiber.Rueckfuehrbar (i : Intent) : Schreiber → Prop
  | .abgeleitet attempt =>
      rumpf i.decisionId = i.decisionId ∧
          (kopf (legText i.intentKind) attempt).length + i.decisionId.length ≤
            maxClientOrderIdLen ∨
        i.decisionId = "_" ++ digest i.decisionId
  | .tor request =>
      match request.clientOrderId.filter (· ≠ "") with
      | some vorhanden => Lesbar t vorhanden i.decisionId
      | none => i.decisionId = "_" ++ digest (i.decisionId ++ "-" ++ i.symbol)
  | .naechster key =>
      match strukturiert z key with
      | some (leg, attempt, rest) =>
          if leg ∈ legs then
            let k := kopf leg (attempt + 1 : Nat)
            if k.length < maxClientOrderIdLen then
              gekappt (maxClientOrderIdLen - k.length) rest = i.decisionId
            else
              gekappt maxClientOrderIdLen k = i.decisionId ∨
                ¬i.decisionId.toList <:+: (gekappt maxClientOrderIdLen k).toList
          else "_" ++ digest key = i.decisionId
      | none => "_" ++ digest key = i.decisionId
  | .freigabe approvalId =>
      let a := gekappt 123 approvalId
      MitNummer t a i.decisionId.toList ∨
        (∀ rest, ¬MitNummer t a rest) ∧
          ("hitl-" ++ a = i.decisionId ∨ ¬i.decisionId.toList <:+: ("hitl-" ++ a).toList)

end

section

variable {t : Textlesung} (ht : t.LiestZiffern)

include ht

theorem gegliedert_kopf {leg : String} (hleg : '-' ∉ leg.toList) (n : Nat) {rest : List Char}
    (hr : rest ≠ []) {key : String} (hk : key.toList = (kopf leg n).toList ++ rest) :
    Gegliedert t key rest := by
  refine ⟨leg.toList, (toString (n : Int)).toList, hleg, hyphen_notMem_toString n, ?_, hr, ?_⟩
  · rw [String.ofList_toList]
    exact ht _ (toString_ofNat_ne_empty n) (toString_ofNat_isDigit n)
  · rw [hk, kopf_toList]
    simp

theorem gegliedert_retry (d : String) :
    Gegliedert t ("retry-1-_" ++ d) ('_' :: d.toList) := by
  refine ⟨"retry".toList, ['1'], by decide, by decide, ?_, by simp, by simp⟩
  exact ht _ (by simp) (by simp)

omit ht in
/-- A head with nothing behind it, or a part of one. -/
theorem not_gegliedert_kopf {leg : String} (hleg : '-' ∉ leg.toList) (n : Nat) (m : Nat)
    (rest : List Char) : ¬Gegliedert t (gekappt m (kopf leg n)) rest := by
  rintro ⟨a, b, ha, hb, -, hr, hk⟩
  have hsplit : (kopf leg n).toList =
      a ++ '-' :: (b ++ '-' :: (rest ++ (kopf leg n).toList.drop m)) := by
    calc (kopf leg n).toList
        = (kopf leg n).toList.take m ++ (kopf leg n).toList.drop m :=
          (List.take_append_drop m _).symm
      _ = _ := by
          rw [show (kopf leg n).toList.take m = a ++ '-' :: (b ++ '-' :: rest) from by
            simpa [gekappt] using hk]
          simp
  rw [kopf_toList] at hsplit
  obtain ⟨-, h₂⟩ := append_cons_inj_of_notMem_left hleg ha hsplit
  obtain ⟨-, h₃⟩ := append_cons_inj_of_notMem_left (hyphen_notMem_toString n) hb h₂
  exact hr (List.append_eq_nil_iff.mp h₃.symm).1

omit ht in
theorem ofList_underscore (d : String) : String.ofList ('_' :: d.toList) = "_" ++ d := by
  simp

omit ht in
/-- A body of letters, digits and hyphens is the decision itself. -/
theorem erlaubt_of_rumpf_eq {d : String} (h : rumpf d = d) {c : Char} (hc : c ∈ d.toList) :
    Tor.erlaubt c = true := by
  have hmap : d.toList.map (fun c => if Tor.erlaubt c then c else '-') = d.toList := by
    simpa [rumpf] using congrArg String.toList h
  by_contra hno
  have hfix := List.map_inj_left.mp (hmap.trans (List.map_id _).symm) c hc
  have hc' : '-' = c := by simpa [hno] using hfix
  exact hno (hc' ▸ by decide)

/-- A derived key leads back to its decision exactly in the literal form. -/
theorem treu_abgeleitet {digest : String → String} {d leg key orderId : String} {attempt : Int}
    {decisionId : String} (hk : deriveClientOrderId digest d leg attempt = .ok key) :
    Treu (decisionVon t key orderId) key decisionId ↔
      if rumpf d = d ∧ (kopf leg attempt).length + d.length ≤ maxClientOrderIdLen then
        d = decisionId
      else "_" ++ digest d = decisionId := by
  unfold deriveClientOrderId at hk
  split at hk
  next => cases hk
  next hne =>
    split at hk
    next => cases hk
    next hleg =>
      split at hk
      next => cases hk
      next hneg =>
        obtain ⟨n, rfl⟩ := Int.eq_ofNat_of_zero_le (Int.not_lt.mp hneg)
        have hhy := hyphen_notMem_of_mem_legs (not_not.mp hleg)
        split at hk
        next hlit =>
          obtain ⟨hr, hlen⟩ := hlit
          rw [hr] at hk hlen
          rw [if_pos ⟨hr, hlen⟩]
          obtain rfl := Except.ok.inj hk
          have hform : Gegliedert t (kopf leg n ++ d) d.toList :=
            gegliedert_kopf ht hhy n (by simpa using hne) (by simp)
          rw [treu_iff_of_gegliedert hform, String.ofList_toList]
        next hdig =>
          rw [if_neg fun h => hdig ⟨h.1, by rw [h.1]; exact h.2⟩]
          obtain rfl := Except.ok.inj hk
          have hform : Gegliedert t (kopf leg n ++ "_" ++ digest d) ('_' :: (digest d).toList) :=
            gegliedert_kopf ht hhy n (by simp) (by simp)
          rw [treu_iff_of_gegliedert hform, ofList_underscore]

/-- A key of the gateway: the one the request had, or one that carries the
symbol too. -/
theorem treu_tor {digest : String → String} {z : Ziffern} {i : Intent} {request : Request}
    {key orderId : String} (hk : (Schreiber.tor request).schluessel digest z i = some key) :
    Treu (decisionVon t key orderId) key i.decisionId ↔
      (Schreiber.tor request).Rueckfuehrbar digest z t i := by
  obtain ⟨hco, hne⟩ : (mitSchluessel digest i request).clientOrderId = some key ∧ key ≠ "" := by
    simpa [Schreiber.schluessel, Option.filter_eq_some_iff] using hk
  cases request with
  | ohneFeld => cases hco
  | mitFeld vorhanden =>
      simp only [mitSchluessel] at hco
      split at hco
      next hset =>
        obtain rfl : vorhanden = some key := hco
        simp [Schreiber.Rueckfuehrbar, Request.clientOrderId, Option.filter, hne,
          treu_iff_lesbar i.decisionId hne]
      next hunset =>
        have hleer : vorhanden ≠ some key := by
          rintro rfl
          simp [hne] at hunset
        split at hco
        next => exact absurd hco hleer
        next =>
          split at hco
          next schluessel hder =>
            obtain rfl : schluessel = key := Option.some.inj hco
            rw [treu_abgeleitet ht hder]
            have hnone : vorhanden.filter (· ≠ "") = none := by
              cases vorhanden with
              | none => rfl
              | some k => simpa [Option.filter] using hunset
            simp only [Schreiber.Rueckfuehrbar, Request.clientOrderId, hnone]
            split
            next hlit =>
              constructor
              · intro heq
                have hlen := congrArg String.length heq
                have hone : "-".length = 1 := rfl
                simp only [String.length_append] at hlen
                omega
              · intro heq
                have hmem : '_' ∈ (i.decisionId ++ "-" ++ i.symbol).toList := by
                  rw [String.toList_append, String.toList_append, heq]
                  simp
                exact absurd (erlaubt_of_rumpf_eq hlit.1 hmem) (by decide)
            next => exact eq_comm
          next => exact absurd hco hleer

omit ht in
theorem strukturiert_rest_ne {z : Ziffern} {key leg rest : String} {attempt : Nat}
    (h : strukturiert z key = some (leg, attempt, rest)) : rest ≠ "" := by
  unfold strukturiert at h
  split at h
  next =>
    dsimp only at h
    split at h
    next hform =>
      obtain ⟨-, -, rfl⟩ : _ ∧ _ ∧ _ = rest := by simpa using h
      intro hnil
      have hempty : ohneZeilenende _ = [] := String.ofList_eq_empty_iff.mp hnil
      simp [hempty] at hform
    next => cases h
  next => cases h

theorem treu_naechster {digest : String → String} {z : Ziffern} {i : Intent}
    {old key orderId : String} (hk : nextAttempt digest z old = .ok key) :
    Treu (decisionVon t key orderId) key i.decisionId ↔
      (Schreiber.naechster old).Rueckfuehrbar digest z t i := by
  have hretry : key = "retry-1-_" ++ digest old →
      (Treu (decisionVon t key orderId) key i.decisionId ↔ "_" ++ digest old = i.decisionId) := by
    rintro rfl
    rw [treu_iff_of_gegliedert (gegliedert_retry ht (digest old)), ofList_underscore]
  unfold nextAttempt at hk
  split at hk
  next => cases hk
  next =>
    cases hs : strukturiert z old with
    | none =>
        rw [hs] at hk
        simpa [Schreiber.Rueckfuehrbar, hs] using hretry (Except.ok.inj hk).symm
    | some p =>
        obtain ⟨leg, attempt, rest⟩ := p
        rw [hs] at hk
        dsimp only at hk
        split at hk
        next hleg =>
          obtain rfl := Except.ok.inj hk
          have hhy := hyphen_notMem_of_mem_legs hleg
          simp only [Schreiber.Rueckfuehrbar, hs, if_pos hleg]
          split
          next hlen =>
            have hne : rest.toList.take (maxClientOrderIdLen - (kopf leg (attempt + 1 : Nat)).length)
                ≠ [] := by
              have hrest : rest.toList ≠ [] := by simpa using strukturiert_rest_ne hs
              simp only [ne_eq, List.take_eq_nil_iff, not_or]
              exact ⟨by omega, hrest⟩
            refine treu_iff_of_gegliedert (gegliedert_kopf ht hhy (attempt + 1) hne ?_)
            rw [gekappt, String.toList_ofList, String.toList_append, List.take_append,
              List.take_of_length_le (by rw [String.length_toList]; omega), String.length_toList]
          next hlen =>
            have hcut : gekappt maxClientOrderIdLen (kopf leg (attempt + 1 : Nat) ++ rest) =
                gekappt maxClientOrderIdLen (kopf leg (attempt + 1 : Nat)) := by
              rw [gekappt, gekappt, String.toList_append,
                List.take_append_of_le_length (by rw [String.length_toList]; omega)]
            rw [hcut]
            refine treu_iff_of_not_gegliedert
              (fun r => not_gegliedert_kopf hhy (attempt + 1) maxClientOrderIdLen r) ?_
            simp [gekappt, maxClientOrderIdLen]
        next hleg =>
          simpa [Schreiber.Rueckfuehrbar, hs, hleg] using hretry (Except.ok.inj hk).symm

omit ht in
theorem treu_freigabe {i : Intent} {approvalId key orderId : String}
    (hk : deriveApprovalClientOrderId approvalId = .ok key) (digest : String → String)
    (z : Ziffern) :
    Treu (decisionVon t key orderId) key i.decisionId ↔
      (Schreiber.freigabe approvalId).Rueckfuehrbar digest z t i := by
  unfold deriveApprovalClientOrderId at hk
  split at hk
  next => cases hk
  next =>
    have hcut : gekappt maxClientOrderIdLen ("hitl-" ++ approvalId) =
        "hitl" ++ "-" ++ gekappt 123 approvalId := by
      simp [gekappt, maxClientOrderIdLen, ← String.toList_inj]
    obtain rfl := Except.ok.inj hk
    rw [hcut, treu_iff_lesbar i.decisionId (by simp [← String.toList_inj]), Lesbar]
    simp only [gegliedert_append_iff (show '-' ∉ "hitl".toList by decide)]
    exact Iff.rfl

end

/-- The fill of an order says what it should of the decision behind it exactly
when its key leads back to that decision. -/
theorem rueckverfolgung_iff {t : Textlesung} (ht : t.LiestZiffern) (digest : String → String)
    (z : Ziffern) {i : Intent} {s : Schreiber} {key : String}
    (hk : s.schluessel digest z i = some key) {d d' : ReconciliationService} {o : BrokerOrder}
    (ho : o.clientOrderId = key) {jetzt : String} {e : FillEvent}
    (hb : d.onBrokerFill t o "" jetzt = (.gebucht e, d')) :
    Treu e.decisionId key i.decisionId ↔ s.Rueckfuehrbar digest z t i := by
  have he : e.decisionId = decisionVon t key o.id := by
    rcases ReconciliationService.onBrokerFill_cases t d o jetzt with ⟨h, -⟩ | ⟨h, -⟩ | ⟨h, -⟩
    · simp [hb] at h
    · simp [hb] at h
    · obtain ⟨rfl, -⟩ : e = fillEvent t o "" jetzt ∧ _ := by simpa [hb] using h
      simp [fillEvent, ho]
  rw [he]
  have hok {r : Except SchluesselFehler String} (h : r.toOption = some key) : r = .ok key := by
    cases r with
    | ok k => exact congrArg Except.ok (Option.some.inj h)
    | error => cases h
  cases s with
  | abgeleitet attempt =>
      rw [treu_abgeleitet ht (hok hk)]
      simp only [Schreiber.Rueckfuehrbar]
      split
      next hlit => simp [hlit]
      next hdig =>
        rw [or_iff_right hdig]
        exact eq_comm
  | tor request => exact treu_tor ht hk
  | naechster old => exact treu_naechster ht (hok hk)
  | freigabe approvalId => exact treu_freigabe (hok hk) digest z

/-- Reads a few numbers and the digits of ASCII. -/
def asciiLesung : Textlesung where
  float s := if s = "3" then some 3 else if s = "100" then some 100 else none
  repr _ := ""
  isdigit s := s ≠ "" && s.toList.all (·.isDigit)

theorem asciiLesung_liestZiffern : asciiLesung.LiestZiffern := by
  intro s hs hd
  simp only [asciiLesung, Bool.and_eq_true, decide_eq_true_eq, List.all_eq_true]
  exact ⟨hs, hd⟩

def dreiStueck : Intent where
  symbol := "AAPL"
  side := .buy
  qty := 3
  intentKind := .entry
  isProtectiveExit := false
  halted := false
  decisionId := "d1"
  decisionId_ne := by decide
  symbol_ne := by decide

/-- Its order at the broker under a key, filled. -/
def gefuellt (key : String) : BrokerOrder :=
  ⟨"o-1", key, "AAPL", .buy, .filled, "3", "100", none⟩

/-- A new service books the fill of that order. -/
theorem onBrokerFill_gefuellt (key : String) :
    (ReconciliationService.neu false .leer).onBrokerFill asciiLesung (gefuellt key) "" "10:00" =
      (.gebucht (fillEvent asciiLesung (gefuellt key) "" "10:00"),
        { ReconciliationService.neu false .leer with
          seenFills := ["o-1:3"]
          fills := [fillEvent asciiLesung (gefuellt key) "" "10:00"] }) := by
  simp [ReconciliationService.onBrokerFill, ReconciliationService.neu, gefuellt, qty, asciiLesung,
    fillId]

/-- A fill under the derived key of a decision carries the decision. -/
theorem rueckverfolgung_iff_woertlich :
    Treu (fillEvent asciiLesung (gefuellt "entry-0-d1") "" "10:00").decisionId "entry-0-d1"
      dreiStueck.decisionId :=
  (rueckverfolgung_iff asciiLesung_liestZiffern (fun _ => "") asciiZiffern (i := dreiStueck)
    (s := .abgeleitet 0) (by decide +kernel) rfl (onBrokerFill_gefuellt "entry-0-d1")).mpr
    (.inl (by decide +kernel))

/-- The gateway adds the symbol to the decision before it derives a key, and the
fill carries both as the decision. -/
theorem rueckverfolgung_mit_symbol :
    (mitSchluessel (fun _ => "") dreiStueck (.mitFeld none)).clientOrderId =
        some "entry-0-d1-AAPL" ∧
      (fillEvent asciiLesung (gefuellt "entry-0-d1-AAPL") "" "10:00").decisionId = "d1-AAPL" ∧
      ¬Treu (fillEvent asciiLesung (gefuellt "entry-0-d1-AAPL") "" "10:00").decisionId
        "entry-0-d1-AAPL" dreiStueck.decisionId := by
  have hread : (fillEvent asciiLesung (gefuellt "entry-0-d1-AAPL") "" "10:00").decisionId =
      "d1-AAPL" := by decide
  refine ⟨by decide +kernel, hread, ?_⟩
  rw [hread]
  rintro (h | ⟨-, h⟩)
  · exact absurd h (by decide)
  · exact absurd h (by decide)

end Reconciliation
