import DocWatch.Text.Utf8
import Mathlib.Data.List.Basic

/-!
# The reader of UTF-8 accepts what encodes a text, and nothing else

The reader takes a character off the bytes by their bounds, and the encoding makes the bytes
of a character by division. Here the two meet. A first byte says how many bytes follow, and
behind four of the first bytes the second one has narrower bounds: they keep out what would
fit in fewer bytes, the surrogates, and what lies beyond the last code point. So the numbers
that come out are those of characters, and each in one spelling only.

What follows for whole texts is `decode?_eq_some_iff`. It makes the encoding injective, and
lets a text be taken apart where its bytes are.
-/

namespace DocWatch.Text

variable {lo hi a : UInt8} {n bits : Nat} {bs rest back : List UInt8} {c : Char}

theorem byteLength_le_of_isInfix {s t : List Char} (h : s <:+: t) :
    byteLength s ≤ byteLength t := by
  obtain ⟨front, back, rfl⟩ := h
  rw [byteLength_append, byteLength_append]
  omega

/-! ## Bytes by number -/

theorem toNat_byte (h : n < 256) : (UInt8.ofNat n).toNat = n :=
  UInt8.toNat_ofNat_of_lt h

/-- A byte behind the first one, by the six bits that it brings. -/
def following (m : Nat) : UInt8 :=
  UInt8.ofNat (m + 128)

theorem lead_of_number (h : n < 256) :
    Lead.of? (UInt8.ofNat n) =
      if 194 ≤ n ∧ n ≤ 223 then some ⟨1, 0x80, 0xBF, n % 32⟩
      else if n = 224 then some ⟨2, 0xA0, 0xBF, 0⟩
      else if n = 237 then some ⟨2, 0x80, 0x9F, 13⟩
      else if 225 ≤ n ∧ n ≤ 239 then some ⟨2, 0x80, 0xBF, n % 16⟩
      else if n = 240 then some ⟨3, 0x90, 0xBF, 0⟩
      else if n = 244 then some ⟨3, 0x80, 0x8F, 4⟩
      else if 241 ≤ n ∧ n ≤ 243 then some ⟨3, 0x80, 0xBF, n % 8⟩
      else none := by
  simp only [Lead.of?, Bool.and_eq_true, decide_eq_true_eq, beq_iff_eq, UInt8.le_iff_toNat_le,
    ← UInt8.toNat_inj, toNat_byte h]
  rfl

theorem lead_three (h : 224 ≤ n) (hn : n < 240) :
    ∃ lo hi : UInt8, Lead.of? (UInt8.ofNat n) = some ⟨2, lo, hi, n - 224⟩ ∧
      lo.toNat = (if n = 224 then 160 else 128) ∧ hi.toNat = if n = 237 then 159 else 191 := by
  rw [lead_of_number (by omega), if_neg (by omega)]
  split
  · subst_vars
    exact ⟨_, _, rfl, rfl, rfl⟩
  split
  · subst_vars
    exact ⟨_, _, rfl, rfl, rfl⟩
  · have hbits : n % 16 = n - 224 := by omega
    rw [if_pos (by omega), hbits]
    exact ⟨_, _, rfl, rfl, rfl⟩

theorem lead_four (h : 240 ≤ n) (hn : n < 245) :
    ∃ lo hi : UInt8, Lead.of? (UInt8.ofNat n) = some ⟨3, lo, hi, n - 240⟩ ∧
      lo.toNat = (if n = 240 then 144 else 128) ∧ hi.toNat = if n = 244 then 143 else 191 := by
  rw [lead_of_number (by omega), if_neg (by omega), if_neg (by omega), if_neg (by omega),
    if_neg (by omega)]
  split
  · subst_vars
    exact ⟨_, _, rfl, rfl, rfl⟩
  split
  · subst_vars
    exact ⟨_, _, rfl, rfl, rfl⟩
  · have hbits : n % 8 = n - 240 := by omega
    rw [if_pos (by omega), hbits]
    exact ⟨_, _, rfl, rfl, rfl⟩

/-! ## One character -/

theorem readFollowing_succ_iff (hlo : 128 ≤ lo.toNat) (hhi : hi.toNat ≤ 191) :
    readFollowing lo hi bits (n + 1) bs = (some c, back) ↔
      ∃ m rest, bs = following m :: rest ∧ lo.toNat ≤ m + 128 ∧ m + 128 ≤ hi.toNat ∧
        readFollowing 0x80 0xBF (bits * 64 + m) n rest = (some c, back) := by
  constructor
  · intro h
    cases bs with
    | nil => cases h
    | cons b rest =>
        rw [readFollowing] at h
        split at h
        · rename_i hbounds
          simp only [Bool.and_eq_true, decide_eq_true_eq, UInt8.le_iff_toNat_le] at hbounds
          have hnumber : b.toNat - 128 + 128 = b.toNat := by omega
          have hbits : b.toNat % 64 = b.toNat - 128 := by omega
          rw [hbits] at h
          refine ⟨b.toNat - 128, rest, ?_, by omega, by omega, h⟩
          rw [following, hnumber, UInt8.ofNat_toNat]
        · cases h
  · intro h
    obtain ⟨m, rest, rfl, hlow, hhigh, hrest⟩ := h
    have hbyte : (following m).toNat = m + 128 := toNat_byte (by omega)
    have hbits : (m + 128) % 64 = m := by omega
    rw [readFollowing, if_pos, hbyte, hbits, hrest]
    simp only [Bool.and_eq_true, decide_eq_true_eq, UInt8.le_iff_toNat_le, hbyte]
    exact ⟨hlow, hhigh⟩

theorem readFollowing_next_iff :
    readFollowing 0x80 0xBF bits (n + 1) bs = (some c, back) ↔
      ∃ m rest, bs = following m :: rest ∧ m < 64 ∧
        readFollowing 0x80 0xBF (bits * 64 + m) n rest = (some c, back) := by
  have hlo : (0x80 : UInt8).toNat = 128 := rfl
  have hhi : (0xBF : UInt8).toNat = 191 := rfl
  rw [readFollowing_succ_iff (by decide) (by decide), hlo, hhi]
  constructor
  · intro h
    obtain ⟨m, rest, hbs, -, hm, hrest⟩ := h
    exact ⟨m, rest, hbs, by omega, hrest⟩
  · intro h
    obtain ⟨m, rest, hbs, hm, hrest⟩ := h
    exact ⟨m, rest, hbs, by omega, by omega, hrest⟩

theorem decodeStep_ascii (h : n < 128) (rest : List UInt8) :
    decodeStep (UInt8.ofNat n) rest = (some (Char.ofNat n), rest) := by
  have hbyte : (UInt8.ofNat n).toNat = n := toNat_byte (by omega)
  rw [decodeStep, if_pos, hbyte]
  rw [UInt8.lt_iff_toNat_lt, hbyte]
  exact h

theorem decodeStep_lead {l : Lead} (h : 128 ≤ n) (hn : n < 256)
    (hlead : Lead.of? (UInt8.ofNat n) = some l) (rest : List UInt8) :
    decodeStep (UInt8.ofNat n) rest = readFollowing l.lowest l.highest l.bits l.following rest := by
  have hascii : ¬ UInt8.ofNat n < 0x80 := by
    rw [UInt8.lt_iff_toNat_lt, toNat_byte hn]
    exact Nat.not_lt.2 h
  rw [decodeStep, if_neg hascii, hlead]

theorem decodeStep_of_no_lead (h : 128 ≤ n) (hn : n < 256)
    (hlead : Lead.of? (UInt8.ofNat n) = none) (rest : List UInt8) :
    decodeStep (UInt8.ofNat n) rest = (none, rest) := by
  have hascii : ¬ UInt8.ofNat n < 0x80 := by
    rw [UInt8.lt_iff_toNat_lt, toNat_byte hn]
    exact Nat.not_lt.2 h
  rw [decodeStep, if_neg hascii, hlead]

theorem decodeStep_two_iff (h : 194 ≤ n) (hn : n < 224) :
    decodeStep (UInt8.ofNat n) rest = (some c, back) ↔
      ∃ m, rest = following m :: back ∧ m < 64 ∧ Char.ofNat ((n - 192) * 64 + m) = c := by
  have hbits : n % 32 = n - 192 := by omega
  have hlead : Lead.of? (UInt8.ofNat n) = some ⟨1, 0x80, 0xBF, n - 192⟩ := by
    rw [lead_of_number (by omega), if_pos (by omega), hbits]
  rw [decodeStep_lead (by omega) (by omega) hlead, readFollowing_next_iff]
  simp only [readFollowing, Prod.mk.injEq, Option.some.injEq]
  constructor
  · intro h
    obtain ⟨m, rest, hrest, hm, hc, rfl⟩ := h
    exact ⟨m, hrest, hm, hc⟩
  · intro h
    obtain ⟨m, hrest, hm, hc⟩ := h
    exact ⟨m, back, hrest, hm, hc, rfl⟩

theorem decodeStep_three_iff (h : 224 ≤ n) (hn : n < 240) :
    decodeStep (UInt8.ofNat n) rest = (some c, back) ↔
      ∃ m k, rest = following m :: following k :: back ∧ m < 64 ∧ k < 64 ∧
        (n = 224 → 32 ≤ m) ∧ (n = 237 → m < 32) ∧
        Char.ofNat (((n - 224) * 64 + m) * 64 + k) = c := by
  obtain ⟨lo, hi, hlead, hlo, hhi⟩ := lead_three h hn
  rw [decodeStep_lead (by omega) (by omega) hlead]
  simp only []
  rw [readFollowing_succ_iff (by split at hlo <;> omega) (by split at hhi <;> omega)]
  simp only [readFollowing_next_iff, readFollowing, Prod.mk.injEq, Option.some.injEq]
  constructor
  · intro h
    obtain ⟨m, _, hrest, hlow, hhigh, k, _, rfl, hk, hc, rfl⟩ := h
    refine ⟨m, k, hrest, ?_, hk, ?_, ?_, hc⟩
    · split at hhi <;> omega
    · split at hlo <;> omega
    · split at hhi <;> omega
  · intro h
    obtain ⟨m, k, hrest, hm, hk, hlow, hhigh, hc⟩ := h
    refine ⟨m, _, hrest, ?_, ?_, k, back, rfl, hk, hc, rfl⟩
    · split at hlo <;> omega
    · split at hhi <;> omega

theorem decodeStep_four_iff (h : 240 ≤ n) (hn : n < 245) :
    decodeStep (UInt8.ofNat n) rest = (some c, back) ↔
      ∃ m k j, rest = following m :: following k :: following j :: back ∧
        m < 64 ∧ k < 64 ∧ j < 64 ∧ (n = 240 → 16 ≤ m) ∧ (n = 244 → m < 16) ∧
        Char.ofNat ((((n - 240) * 64 + m) * 64 + k) * 64 + j) = c := by
  obtain ⟨lo, hi, hlead, hlo, hhi⟩ := lead_four h hn
  rw [decodeStep_lead (by omega) (by omega) hlead]
  simp only []
  rw [readFollowing_succ_iff (by split at hlo <;> omega) (by split at hhi <;> omega)]
  simp only [readFollowing_next_iff, readFollowing, Prod.mk.injEq, Option.some.injEq]
  constructor
  · intro h
    obtain ⟨m, _, hrest, hlow, hhigh, k, _, rfl, hk, j, _, rfl, hj, hc, rfl⟩ := h
    refine ⟨m, k, j, hrest, ?_, hk, hj, ?_, ?_, hc⟩
    · split at hhi <;> omega
    · split at hlo <;> omega
    · split at hhi <;> omega
  · intro h
    obtain ⟨m, k, j, hrest, hm, hk, hj, hlow, hhigh, hc⟩ := h
    refine ⟨m, _, hrest, ?_, ?_, k, _, rfl, hk, j, back, rfl, hj, hc, rfl⟩
    · split at hlo <;> omega
    · split at hhi <;> omega

theorem encodeChar_ofNat (h : n.isValidChar) :
    String.utf8EncodeChar (Char.ofNat n) =
      if n < 128 then [UInt8.ofNat n]
      else if n < 2048 then [UInt8.ofNat (n / 64 + 192), following (n % 64)]
      else if n < 65536 then
        [UInt8.ofNat (n / 4096 + 224), following (n / 64 % 64), following (n % 64)]
      else
        [UInt8.ofNat (n / 262144 + 240), following (n / 4096 % 64), following (n / 64 % 64),
          following (n % 64)] := by
  have hnumber : (Char.ofNat n).val.toNat = n := by
    rw [Char.ofNat, dif_pos h]
    rfl
  rw [String.utf8EncodeChar, hnumber]
  simp only [following]
  by_cases hone : n < 128
  · rw [if_pos hone, if_pos (by omega)]
  rw [if_neg hone, if_neg (by omega)]
  by_cases htwo : n < 2048
  · have hfirst : n / 64 % 32 = n / 64 := by omega
    rw [if_pos htwo, if_pos (by omega), hfirst]
  rw [if_neg htwo, if_neg (by omega)]
  by_cases hthree : n < 65536
  · have hfirst : n / 4096 % 16 = n / 4096 := by omega
    rw [if_pos hthree, if_pos (by omega), hfirst]
  have hfirst : n / 262144 % 8 = n / 262144 := by omega
  rw [if_neg hthree, if_neg (by omega), hfirst]

theorem decodeStep_encodeChar (c : Char) (back : List UInt8) :
    ∃ a rest, String.utf8EncodeChar c ++ back = a :: rest ∧ decodeStep a rest = (some c, back) := by
  have hvalid : c.toNat.isValidChar := c.valid
  rw [← Char.ofNat_toNat c]
  generalize c.toNat = v at hvalid
  rw [encodeChar_ofNat hvalid]
  split
  · exact ⟨_, _, rfl, decodeStep_ascii (by omega) _⟩
  split
  · refine ⟨_, _, rfl, (decodeStep_two_iff (by omega) (by omega)).2 ⟨v % 64, rfl, by omega, ?_⟩⟩
    congr 1
    omega
  split
  · refine ⟨_, _, rfl, (decodeStep_three_iff (by omega) (by omega)).2
      ⟨v / 64 % 64, v % 64, rfl, by omega, by omega, by omega, by omega, ?_⟩⟩
    congr 1
    omega
  · refine ⟨_, _, rfl, (decodeStep_four_iff (by omega) (by omega)).2
      ⟨v / 4096 % 64, v / 64 % 64, v % 64, rfl, by omega, by omega, by omega, by omega, by omega,
        ?_⟩⟩
    congr 1
    omega

theorem encodeChar_of_decodeStep (h : decodeStep a rest = (some c, back)) :
    a :: rest = String.utf8EncodeChar c ++ back := by
  have ha : a.toNat < 256 := a.toNat_lt
  rw [← UInt8.ofNat_toNat (x := a)] at h ⊢
  generalize a.toNat = n at ha h
  by_cases hascii : n < 128
  · rw [decodeStep_ascii hascii] at h
    cases h
    rw [encodeChar_ofNat (by omega), if_pos hascii]
    rfl
  by_cases htwo : 194 ≤ n ∧ n < 224
  · obtain ⟨m, rfl, hm, rfl⟩ := (decodeStep_two_iff htwo.1 htwo.2).1 h
    have hfirst : ((n - 192) * 64 + m) / 64 + 192 = n := by omega
    have hsecond : ((n - 192) * 64 + m) % 64 = m := by omega
    rw [encodeChar_ofNat (by omega), if_neg (by omega), if_pos (by omega), hfirst, hsecond]
    rfl
  by_cases hthree : 224 ≤ n ∧ n < 240
  · obtain ⟨m, k, rfl, hm, hk, hlow, hhigh, rfl⟩ :=
      (decodeStep_three_iff hthree.1 hthree.2).1 h
    generalize hv : ((n - 224) * 64 + m) * 64 + k = v
    have hfirst : v / 4096 + 224 = n := by omega
    have hsecond : v / 64 % 64 = m := by omega
    have hthird : v % 64 = k := by omega
    rw [encodeChar_ofNat (by omega), if_neg (by omega), if_neg (by omega), if_pos (by omega),
      hfirst, hsecond, hthird]
    rfl
  by_cases hfour : 240 ≤ n ∧ n < 245
  · obtain ⟨m, k, j, rfl, hm, hk, hj, hlow, hhigh, rfl⟩ :=
      (decodeStep_four_iff hfour.1 hfour.2).1 h
    generalize hv : (((n - 240) * 64 + m) * 64 + k) * 64 + j = v
    have hfirst : v / 262144 + 240 = n := by omega
    have hsecond : v / 4096 % 64 = m := by omega
    have hthird : v / 64 % 64 = k := by omega
    have hfourth : v % 64 = j := by omega
    rw [encodeChar_ofNat (by omega), if_neg (by omega), if_neg (by omega), if_neg (by omega),
      hfirst, hsecond, hthird, hfourth]
    rfl
  · have hnone : Lead.of? (UInt8.ofNat n) = none := by
      rw [lead_of_number ha, if_neg (by omega), if_neg (by omega), if_neg (by omega),
        if_neg (by omega), if_neg (by omega), if_neg (by omega), if_neg (by omega)]
    rw [decodeStep_of_no_lead (by omega) ha hnone] at h
    cases h

/-! ## Texts -/

theorem scan_encodeChar_append (c : Char) (back : List UInt8) :
    scan (String.utf8EncodeChar c ++ back) = some c :: scan back := by
  obtain ⟨a, rest, heq, hstep⟩ := decodeStep_encodeChar c back
  rw [heq, scan, hstep]

theorem scan_encode_append (s : List Char) (back : List UInt8) :
    scan (encode s ++ back) = s.map some ++ scan back := by
  induction s with
  | nil => rfl
  | cons c rest ih =>
      rw [encode, List.flatMap_cons, List.append_assoc, scan_encodeChar_append]
      exact congrArg (some c :: ·) ih

theorem encode_of_scan {s : List Char} (h : scan bs = s.map some) : bs = encode s := by
  induction s generalizing bs with
  | nil =>
      cases bs with
      | nil => rfl
      | cons a rest =>
          rw [scan] at h
          cases h
  | cons c s ih =>
      cases bs with
      | nil =>
          rw [scan] at h
          cases h
      | cons a rest =>
          rw [scan, List.map_cons, List.cons.injEq] at h
          rw [encode, List.flatMap_cons, ← encode, ← ih h.2]
          exact encodeChar_of_decodeStep (Prod.ext h.1 rfl)

theorem scan_eq_map_some_iff {s : List Char} : scan bs = s.map some ↔ bs = encode s := by
  constructor
  · exact encode_of_scan
  · intro h
    have hscan := scan_encode_append s []
    rw [List.append_nil, ← h, scan, List.append_nil] at hscan
    exact hscan

theorem mapM_id_eq_some_iff {α : Type} {l : List (Option α)} {s : List α} :
    l.mapM id = some s ↔ l = s.map some := by
  induction l generalizing s with
  | nil => cases s <;> simp
  | cons x rest ih =>
      cases x with
      | none => cases s <;> simp
      | some a =>
          simp only [List.mapM_cons, id, Option.bind_eq_bind, Option.bind_some,
            Option.bind_eq_some_iff, ih]
          cases s with
          | nil => simp
          | cons b s => simp [and_comm]

/-- Bytes are read as a text without any gap exactly if they encode it. -/
theorem decode?_eq_some_iff {s : List Char} : decode? bs = some s ↔ bs = encode s := by
  rw [decode?, mapM_id_eq_some_iff, scan_eq_map_some_iff]

theorem decodeLossy_encode (s : List Char) : decodeLossy (encode s) = s := by
  rw [decodeLossy, scan_eq_map_some_iff.2 rfl, List.map_map]
  exact List.map_id s

theorem replacement_mem_decodeLossy (h : ∀ s, bs ≠ encode s) :
    replacement ∈ decodeLossy bs := by
  by_cases hgap : none ∈ scan bs
  · exact List.mem_map.2 ⟨none, hgap, rfl⟩
  · have hread : scan bs = (decodeLossy bs).map some := by
      rw [decodeLossy, List.map_map]
      refine (List.map_id _).symm.trans (List.map_congr_left fun x hx => ?_)
      cases x with
      | none => exact absurd hx hgap
      | some c => rfl
    exact absurd (scan_eq_map_some_iff.1 hread) (h _)

theorem encode_injective {s t : List Char} (h : encode s = encode t) : s = t := by
  rw [← decodeLossy_encode s, h, decodeLossy_encode]

/-- What is left of an encoding behind an encoding is one again. -/
theorem exists_of_encode_eq_append {s t : List Char} (h : encode s = encode t ++ back) :
    ∃ u, s = t ++ u ∧ back = encode u := by
  have hscan : s.map some = t.map some ++ scan back := by
    rw [← scan_encode_append, ← h, scan_eq_map_some_iff.2 rfl]
  obtain ⟨t', u, rfl, ht, hu⟩ := List.map_eq_append_iff.1 hscan
  obtain rfl : t' = t := List.map_injective_iff.2 (fun _ _ => Option.some.inj) ht
  exact ⟨u, rfl, scan_eq_map_some_iff.1 hu.symm⟩

end DocWatch.Text
