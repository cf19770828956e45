/-
  File:      Veesker/Pii/Clean.lean
  Subject:   WHAT THE PII MASKING LEAVES.

  The phone numbers are the only expression that may match from within a word. What stands before such
  a match has a new edge behind it once the marker is there, and may match up to this edge.

  * `maskPii_eq` -- the callback of the card numbers never declines;
  * `mask_free` -- a replacement at edges makes no new match;
  * **`maskPii_clean_iff`** -- nothing is left that matches, and a second masking changes nothing, if and
    only if no stretch that matches stands right before a phone number;
  * `maskPii_digits` -- a run of 22 digits.
-/
import Veesker.Pii.Patterns

namespace Veesker.Pii

open Regex List

/-! ## 1. Card numbers -/

section

variable {w keep : Char → Bool}

/-- A match has from `lo` to `hi` characters that are kept. -/
def Counts (w keep : Char → Bool) (r : Regex) (lo hi : Nat) : Prop :=
  ∀ k, ∀ m ∈ r.ends w k, ∃ u, k.2 = u ++ m.2 ∧ lo ≤ (u.filter keep).length ∧
    (u.filter keep).length ≤ hi

theorem counts_one {p : Char → Bool} (h : ∀ c, p c = true → keep c = true) :
    Counts w keep (.one p) 1 1 := by
  intro k m hm
  obtain ⟨c, hk, hc, -⟩ := mem_ends_one.mp hm
  exact ⟨[c], hk, by simp [h c hc]⟩

theorem counts_seq {a b : Regex} {lo hi lo' hi' : Nat} (ha : Counts w keep a lo hi)
    (hb : Counts w keep b lo' hi') : Counts w keep (a.seq b) (lo + lo') (hi + hi') := by
  intro k m hm
  obtain ⟨l, hl, hm⟩ := mem_ends_seq.mp hm
  obtain ⟨u, hu, hulo, huhi⟩ := ha k l hl
  obtain ⟨v, hv, hvlo, hvhi⟩ := hb l m hm
  refine ⟨u ++ v, by rw [hu, hv, append_assoc], ?_⟩
  rw [filter_append, length_append]
  omega

theorem counts_nothing {r : Regex} (h : ∀ k, ∀ m ∈ r.ends w k, m.2 = k.2) : Counts w keep r 0 0 :=
  fun k m hm => ⟨[], (h k m hm).symm, by simp⟩

/-- A character that is not kept, or nothing. -/
theorem counts_opt {p : Char → Bool} (h : ∀ c, p c = true → keep c = false) :
    Counts w keep (opt (.one p)) 0 0 := by
  intro k m hm
  rcases mem_ends_alt.mp hm with hm | hm
  · obtain ⟨c, hk, hc, -⟩ := mem_ends_one.mp hm
    exact ⟨[c], hk, by simp [h c hc]⟩
  · obtain rfl := mem_singleton.mp hm
    exact ⟨[], rfl, by simp⟩

theorem counts_upTo {r : Regex} (h : Counts w keep r 1 1) (n : Nat) :
    Counts w keep (upTo n r) 0 n := by
  induction n with
  | zero => exact counts_nothing fun k m hm => by rw [mem_singleton.mp hm]
  | succ n ih =>
    intro k m hm
    rcases mem_ends_alt.mp hm with hm | hm
    · obtain ⟨u, hu, -, hhi⟩ := counts_seq h ih k m hm
      exact ⟨u, hu, Nat.zero_le _, by omega⟩
    · obtain rfl := mem_singleton.mp hm
      exact ⟨[], rfl, by simp⟩

theorem counts_times {r s : Regex} {lo hi : Nat} (hr : Counts w keep r 1 1)
    (hs : Counts w keep s lo hi) (n : Nat) : Counts w keep (times n r s) (n + lo) (n + hi) := by
  induction n with
  | zero => rwa [Nat.zero_add, Nat.zero_add]
  | succ n ih =>
    intro k m hm
    obtain ⟨u, hu, hlo, hhi⟩ := counts_seq hr ih k m hm
    exact ⟨u, hu, by omega, by omega⟩

end

/-- A card number has from 13 to 19 digits. -/
theorem counts_cc (K : Classes) :
    Counts K.word (fun c => c != ' ' && c != '-') (ccRe K) 13 19 := by
  have hdigit : ∀ c, K.digit c = true → (c != ' ' && c != '-') = true := by
    intro c hc
    have hne : ∀ d : Char, d.toNat < 128 → d.isDigit = false → c ≠ d := by
      rintro d hd hnot rfl
      rw [(K.ascii c hd).1, hnot] at hc
      cases hc
    simp [hne ' ' (by decide) (by decide), hne '-' (by decide) (by decide)]
  have hedge : ∀ k, ∀ m ∈ Regex.edge.ends K.word k, m.2 = k.2 := fun k m hm => by
    rw [(mem_ends_edge.mp hm).1]
  have hone : Counts K.word (fun c => c != ' ' && c != '-') (cardDigit K) 1 1 :=
    counts_seq (counts_opt fun c hc => by
      simp only [Bool.or_eq_true, beq_iff_eq] at hc
      rcases hc with rfl | rfl <;> rfl) (counts_one hdigit)
  exact counts_seq (counts_nothing hedge) (counts_seq (counts_one hdigit)
    (counts_seq (counts_times hone (counts_upTo hone 6) 12) (counts_nothing hedge)))

/-- What the search has found is a match. -/
theorem match_of_found {w : Char → Bool} {r : Regex} {b : Bool} {s : Text} {l : List (Text × Text)} {g : Text}
    (h : Segmented w r b s l g) : ∀ x ∈ l, ∃ f t k, (f, t) ∈ r.ends w (k, x.2 ++ t) := by
  induction h with
  | last _ => exact nofun
  | cons _ hm _ _ ih =>
    refine forall_mem_cons.mpr ⟨?_, ih⟩
    obtain ⟨f, hf⟩ := find_eq_some hm
    exact ⟨f, _, _, hf⟩

/-- **The callback never declines**: the two functions are one, but for their classes. -/
theorem maskPii_eq (s : Text) : maskPii s = Host.maskPii jsClasses s := by
  have hcard : ∀ t, replaceAll jsClasses.word (ccRe jsClasses) maskCard t =
      mask jsClasses ccRe ccMarker t := by
    intro t
    have hseg := segmented_scan (@pattern_cc jsClasses).closed.solid false t
    rw [mask, replaceAll, replaceAll, replace_segments, replace_segments]
    refine congrArg (· ++ _) (flatMap_congr fun x hx => ?_)
    obtain ⟨f, t', k, hmem⟩ := match_of_found hseg x hx
    obtain ⟨u, hu, hlo, hhi⟩ := counts_cc jsClasses _ _ hmem
    have hsame : x.2 = u := append_cancel_right hu
    rw [← hsame] at hlo hhi
    rw [maskCard]
    refine congrArg (x.1 ++ ·) (if_neg ?_)
    omega
  simp only [maskPii, Host.maskPii, beforePhones, hcard]

/-! ## 2. Replacements -/

section

variable {K : Classes}

theorem marker_letters {r : Regex} (hr : Pattern K r) {i : Text}
    (hi : ∀ c ∈ i, c.isAlpha = true ∨ c = '_') : Marker K.word r ('⟨' :: (i ++ ['⟩'])) := by
  obtain ⟨-, hopen, -⟩ := K.brackets '⟨' (.inl rfl)
  obtain ⟨-, hclose, -⟩ := K.brackets '⟩' (.inr rfl)
  have hfree : ∀ b, Free K.word r b i [] := by
    induction i with
    | nil => exact fun _ => trivial
    | cons c i ih =>
      refine fun b => ⟨?_, ih (fun d hd => hi d (mem_cons_of_mem c hd)) _⟩
      rw [append_nil]
      exact hr.letters _ hi b
  exact ⟨'⟨', i, '⟩', rfl, hopen, hr.opening, hclose, hr.closing, hfree false⟩

/-- The markers of the six replacements. -/
def markers : List Text := [cnpjMarker, cpfMarker, emailMarker, ccMarker, phoneMarker, rgMarker]

theorem marker_of_mem {r : Regex} (hr : Pattern K r) {t : Text} (ht : t ∈ markers) :
    Marker K.word r t := by
  have hletters : ∀ i : Text, ∀ u, u = '⟨' :: (i ++ ['⟩']) →
      (i.all fun c => c.isAlpha || c == '_') = true → Marker K.word r u := by
    rintro i u rfl hi
    refine marker_letters hr fun c hc => ?_
    simpa using all_eq_true.mp hi c hc
  simp only [markers, mem_cons, not_mem_nil, or_false] at ht
  rcases ht with rfl | rfl | rfl | rfl | rfl | rfl
  · exact hletters "CNPJ_REDACTED".toList _ (by decide) (by decide)
  · exact hletters "CPF_REDACTED".toList _ (by decide) (by decide)
  · exact hletters "EMAIL_REDACTED".toList _ (by decide) (by decide)
  · exact hletters "CC_REDACTED".toList _ (by decide) (by decide)
  · exact hletters "PHONE_REDACTED".toList _ (by decide) (by decide)
  · exact hletters "RG_REDACTED".toList _ (by decide) (by decide)

theorem mask_eq (r : Classes → Regex) (t s : Text) : mask K r t s =
    (segments ((r K).scan K.word 0 false s)).1.flatMap (fun p => p.1 ++ t) ++
      (segments ((r K).scan K.word 0 false s)).2 := by
  rw [mask, replaceAll, replace_segments]

/-- The gaps of a text with markers are masked one by one. -/
theorem mask_marked {r : Classes → Regex} {t : Text} (hr : Pattern K (r K)) (ht : t ∈ markers)
    (m : Text) (l : List (Text × Text)) (g : Text) :
    mask K r m (l.flatMap (fun p => p.1 ++ t) ++ g) =
      (l.map fun x => (mask K r m x.1, x.2)).flatMap (fun p => p.1 ++ t) ++ mask K r m g := by
  rw [flatMap_map]
  exact replaceAll_marked hr.closed.solid (marker_of_mem hr ht) _ l g

/-- **A replacement at edges makes no new match**, and leaves none of its own. -/
theorem mask_free {p : Classes → Regex} {q : Regex} {t s : Text} (hp : Pattern K (p K))
    (hlead : (p K).Leads K.word) (hq : Pattern K q) (ht : t ∈ markers)
    (hfree : Free K.word q false s [] ∨ q = p K) : Free K.word q false (mask K p t s) [] := by
  rw [mask_eq, free_marked hq.closed.solid (marker_of_mem hq ht)]
  exact (segmented_scan hp.closed.solid false s).free_gaps hp.closed hq.closed hq.start hlead hfree
    (.inl rfl)

variable (K)

/-- The expressions of the first five replacements, and all six. -/
def five : List Regex := [cnpjRe K, cpfRe K, emailRe, ccRe K, phoneRe K]

def six : List Regex := five K ++ [rgRe K]

/-- None of the six matches from any place of the text. -/
def Clean (t : Text) : Prop := ∀ q ∈ six K, Free K.word q false t []

/-- A match of the expression reaches the end of the text. -/
def EndsIn (q : Regex) (g : Text) : Prop :=
  ∃ a b, g = a ++ b ∧ ∃ f, (f, []) ∈ q.ends K.word (after K.word false a, b)

/-- What stands behind the last RG number of a text. -/
def behindNumbers (g : Text) : Text := (segments ((rgRe K).scan K.word 0 false g)).2

/-- What stands before a phone number, and behind its last RG number, matches up to its end. -/
def Exposed (g : Text) : Prop := ∃ q ∈ five K, EndsIn K q (behindNumbers K g)

/-- What stands before each phone number, from the one before on, when the phone numbers are looked
    for. -/
def gapsBeforePhones (s : Text) : List Text :=
  (segments ((phoneRe K).scan K.word 0 false (beforePhones K s))).1.map Prod.fst

variable {K}

theorem pattern_five {q : Regex} (hq : q ∈ five K) : Pattern K q := by
  simp only [five, mem_cons, not_mem_nil, or_false] at hq
  rcases hq with rfl | rfl | rfl | rfl | rfl
  · exact pattern_cnpj
  · exact pattern_cpf
  · exact pattern_email
  · exact pattern_cc
  · exact pattern_phone

theorem beforePhones_free (s : Text) {q : Regex} (hq : q ∈ five K) :
    Free K.word q false (beforePhones K s) [] ∨ q = phoneRe K := by
  have hcnpj : (cnpjRe K).Leads K.word := leads_edge _
  have hcpf : (cpfRe K).Leads K.word := leads_edge _
  have hemail : emailRe.Leads K.word := leads_edge _
  have hcc : (ccRe K).Leads K.word := leads_edge _
  have hfirst : ∀ {q t}, Pattern K q → Free K.word q false t [] ∨ q = cpfRe K →
      Free K.word q false (mask K cpfRe cpfMarker t) [] := fun hq h =>
    mask_free pattern_cpf hcpf hq (by simp [markers]) h
  have hsecond : ∀ {q t}, Pattern K q → Free K.word q false t [] ∨ q = emailRe →
      Free K.word q false (mask K (fun _ => emailRe) emailMarker t) [] := fun hq h =>
    mask_free (p := fun _ => emailRe) pattern_email hemail hq (by simp [markers]) h
  have hthird : ∀ {q t}, Pattern K q → Free K.word q false t [] ∨ q = ccRe K →
      Free K.word q false (mask K ccRe ccMarker t) [] := fun hq h =>
    mask_free pattern_cc hcc hq (by simp [markers]) h
  simp only [five, mem_cons, not_mem_nil, or_false] at hq
  rcases hq with rfl | rfl | rfl | rfl | rfl
  · have hzero : Free K.word (cnpjRe K) false (mask K cnpjRe cnpjMarker s) [] :=
      mask_free pattern_cnpj hcnpj pattern_cnpj (by simp [markers]) (.inr rfl)
    exact .inl (hthird pattern_cnpj (.inl (hsecond pattern_cnpj (.inl
      (hfirst pattern_cnpj (.inl hzero))))))
  · exact .inl (hthird pattern_cpf (.inl (hsecond pattern_cpf (.inl (hfirst pattern_cpf (.inr rfl))))))
  · exact .inl (hthird pattern_email (.inl (hsecond pattern_email (.inr rfl))))
  · exact .inl (hthird pattern_cc (.inr rfl))
  · exact .inr rfl

/-! ## 3. What is left -/

/-- A text whose matches all reach its end has none, unless one does. -/
theorem free_iff_of_only {q : Regex} (hq : q.Solid K.word) {b : Bool} {g : Text}
    (h : Only K.word q b g []) : Free K.word q b g [] ↔
      ¬ ∃ u v, g = u ++ v ∧ ∃ f, (f, []) ∈ q.ends K.word (after K.word b u, v) := by
  induction g generalizing b with
  | nil =>
    refine iff_of_true trivial ?_
    intro hex
    obtain ⟨u, v, huv, f, hf⟩ := hex
    obtain ⟨rfl, rfl⟩ := append_eq_nil_iff.mp huv.symm
    exact absurd (hq _ _ hf) (lt_irrefl _)
  | cons c g ih =>
    rw [Free, ih h.2, append_nil]
    constructor
    · intro hboth hex
      obtain ⟨u, v, huv, f, hf⟩ := hex
      cases u with
      | nil =>
        rw [nil_append] at huv
        rw [← huv, after_nil, hboth.1] at hf
        cases hf
      | cons d u =>
        obtain ⟨rfl, hg⟩ := List.cons.inj huv
        exact hboth.2 ⟨u, v, hg, f, hf⟩
    · intro hnone
      refine ⟨?_, fun hex => ?_⟩
      · rw [eq_nil_iff_forall_not_mem]
        intro m hm
        obtain ⟨f, t⟩ := m
        obtain rfl : t = [] := h.1 (f, t) (by rwa [append_nil])
        exact hnone ⟨[], c :: g, rfl, f, hm⟩
      · obtain ⟨u, v, hg, hf⟩ := hex
        exact hnone ⟨c :: u, v, congrArg (List.cons c) hg, hf⟩

/-- A gap before a phone number, its RG numbers masked, is free where no match reaches its end. -/
theorem mask_gap_iff {q : Regex} (hq : Pattern K q) {g : Text} (h : Only K.word q false g []) :
    Free K.word q false (mask K rgRe rgMarker g) [] ↔ ¬ EndsIn K q (behindNumbers K g) := by
  have hseg := segmented_scan (@pattern_rg K).closed.solid false g
  obtain ⟨hgaps, hlast⟩ := hseg.only_last pattern_rg.closed hq.closed hq.start (leads_edge _) h (.inl rfl)
  rw [mask_eq, free_marked hq.closed.solid (marker_of_mem hq (by simp [markers])), and_iff_right hgaps,
    free_iff_of_only hq.closed.solid hlast]
  rfl

/-- **What the host's masking leaves.** -/
theorem Host.clean_iff (K : Classes) (s : Text) :
    Clean K (Host.maskPii K s) ↔ ∀ g ∈ gapsBeforePhones K s, ¬ Exposed K g := by
  obtain ⟨t, ht⟩ : ∃ t, beforePhones K s = t := ⟨_, rfl⟩
  obtain ⟨⟨l, g⟩, hl⟩ : ∃ p, segments ((phoneRe K).scan K.word 0 false t) = p := ⟨_, rfl⟩
  have hseg := segmented_scan (@pattern_phone K).closed.solid false t
  have hbefore : ∀ q ∈ five K, Free K.word q false t [] ∨ q = phoneRe K := fun q hq =>
    ht ▸ beforePhones_free s hq
  have hmasked : Host.maskPii K s =
      (l.map fun x => (mask K rgRe rgMarker x.1, x.2)).flatMap (fun x => x.1 ++ phoneMarker) ++
        mask K rgRe rgMarker g := by
    rw [Host.maskPii, ht, mask_eq phoneRe, hl]
    exact mask_marked pattern_rg (by simp [markers]) rgMarker l g
  have hgaps : ∀ q ∈ five K, (∀ x ∈ l, Only K.word q false x.1 []) ∧ Free K.word q false g [] := by
    intro q hq
    have hall := hseg.only_gaps pattern_phone.closed (pattern_five hq).closed (pattern_five hq).start
      (hbefore q hq) (.inl rfl)
    rwa [hl] at hall
  have hrg : ∀ u, Free K.word (rgRe K) false (mask K rgRe rgMarker u) [] := fun u =>
    mask_free pattern_rg (leads_edge _) pattern_rg (by simp [markers]) (.inr rfl)
  have hfive : ∀ q ∈ five K, (Free K.word q false (Host.maskPii K s) [] ↔
      ∀ x ∈ l, ¬ EndsIn K q (behindNumbers K x.1)) := by
    intro q hq
    have hpattern := pattern_five hq
    obtain ⟨honly, hlast⟩ := hgaps q hq
    have hend : Free K.word q false (mask K rgRe rgMarker g) [] :=
      mask_free pattern_rg (leads_edge _) hpattern (by simp [markers]) (.inl hlast)
    rw [hmasked, free_marked hpattern.closed.solid (marker_of_mem hpattern (by simp [markers])),
      and_iff_left hend, forall_mem_map]
    exact forall₂_congr fun x hx => mask_gap_iff hpattern (honly x hx)
  have hall : Clean K (Host.maskPii K s) ↔
      ∀ q ∈ five K, Free K.word q false (Host.maskPii K s) [] := by
    rw [Clean, six]
    simp only [mem_append, mem_singleton, or_imp, forall_and, forall_eq]
    refine and_iff_left ?_
    rw [hmasked, free_marked pattern_rg.closed.solid (marker_of_mem pattern_rg (by simp [markers])),
      forall_mem_map]
    exact ⟨fun x _ => hrg x.1, hrg g⟩
  rw [hall, gapsBeforePhones, ht, hl, forall_mem_map]
  generalize Host.maskPii K s = masked at hfive ⊢
  constructor
  · intro h x hx hex
    obtain ⟨q, hq, hends⟩ := hex
    exact (hfive q hq).mp (h q hq) x hx hends
  · exact fun h q hq => (hfive q hq).mpr fun x hx hends => h x hx ⟨q, hq, hends⟩

/-- A text without a match is masked as it is. -/
theorem Host.maskPii_clean {t : Text} (h : Clean K t) : Host.maskPii K t = t := by
  have hq : ∀ {r : Classes → Regex} {m : Text}, r K ∈ six K → mask K r m t = t := fun hr =>
    replaceAll_free (h _ hr) _
  have hemail : mask K (fun _ => emailRe) emailMarker t = t :=
    hq (r := fun _ => emailRe) (by simp [six, five])
  rw [Host.maskPii, beforePhones, hq (by simp [six, five]), hq (by simp [six, five]), hemail,
    hq (by simp [six, five]), hq (by simp [six, five]), hq (by simp [six, five])]

end

/-- **Nothing that matches is left**, and a second masking changes nothing, exactly where what stands
    right before a phone number does not match up to it. -/
theorem maskPii_clean_iff (s : Text) :
    (Clean jsClasses (maskPii s) ∧ maskPii (maskPii s) = maskPii s) ↔
      ∀ g ∈ gapsBeforePhones jsClasses s, ¬ Exposed jsClasses g := by
  rw [← Host.clean_iff, ← maskPii_eq]
  generalize maskPii s = masked
  refine and_iff_left_of_imp fun h => ?_
  rw [maskPii_eq]
  exact Host.maskPii_clean h

/-- **A run of 22 digits**: the last eleven are a phone number, and so are then the first. -/
theorem maskPii_digits : maskPii "1234567890123456789012".toList =
      "12345678901⟨PHONE_REDACTED⟩".toList ∧
    ¬ ∀ s, Clean jsClasses (maskPii s) ∧ maskPii (maskPii s) = maskPii s := by
  have hmasked : maskPii "1234567890123456789012".toList =
      "12345678901⟨PHONE_REDACTED⟩".toList := by decide
  refine ⟨hmasked, fun h => ?_⟩
  have htwice := (h "1234567890123456789012".toList).2
  rw [hmasked] at htwice
  exact absurd htwice (by decide)

end Veesker.Pii
