import KLang.Number.Basic
import KLang.Text.Encoding
import Mathlib.Data.List.Basic
import Mathlib.Tactic.NormNum

/-!
# Bytes are decoded as UTF-8

The decoder keeps the bits that it has read of a character, and the range of the next byte. What is
still owed are continuation bytes of six bits each, so the character that comes out in the end is
known by its code: the bits at hand are its upper ones.

* `continuation`: the bytes of the lower bits of a code.
* `decodeFrom_some`: what is read behind the first byte of a character.
* `decodeUtf8_eq_ok`: bytes are decoded as a text exactly if they are its encoding.
-/

namespace KLang

namespace Utf8

/-! ## Continuation bytes -/

/-- The bytes for the lower bits of a code, six bits in each. -/
def continuation : Nat → Nat → List UInt8
  | 0, _ => []
  | k + 1, v => UInt8.ofNat (v / 64 ^ k % 64 + 128) :: continuation k v

theorem eq_ofNat_iff {b : UInt8} {n : Nat} (h : n < 256) : b = UInt8.ofNat n ↔ b.toNat = n := by
  rw [← UInt8.toNat_inj, UInt8.toNat_ofNat', Nat.mod_eq_of_lt h]

namespace Pending

/-- The range of the next byte leaves room for six bits. -/
structure Fits (p : Pending) : Prop where
  low : 128 ≤ p.low.toNat
  high : p.high.toNat ≤ 191

/-- The bits that are there are those of the code above the ones that are owed, and the next byte of
the code is in the range. -/
structure Leaves (p : Pending) (k v : Nat) : Prop where
  code : v / 64 ^ k / 64 = p.code
  low : p.low.toNat ≤ v / 64 ^ k % 64 + 128
  high : v / 64 ^ k % 64 + 128 ≤ p.high.toNat

variable {p : Pending}

theorem leaves_iff (hp : p.Fits) {k v : Nat} {b : UInt8} {bytes rest : List UInt8} :
    p.Leaves k v ∧ b :: bytes = continuation (k + 1) v ++ rest ↔
      (p.low ≤ b ∧ b ≤ p.high) ∧ v / 64 ^ k = p.code * 64 + (b.toNat - 0x80) ∧
        bytes = continuation k v ++ rest := by
  have hlow := hp.low
  have hhigh := hp.high
  rw [continuation, List.cons_append, List.cons.injEq, eq_ofNat_iff (by omega),
    UInt8.le_iff_toNat_le, UInt8.le_iff_toNat_le, ← and_assoc, ← and_assoc]
  refine and_congr_left fun _ => ⟨fun ⟨⟨hcode, hlow', hhigh'⟩, hb⟩ => ?_, fun h => ⟨⟨?_, ?_, ?_⟩, ?_⟩⟩
  all_goals omega

end Pending

theorem fits_tail (owed code : Nat) : Pending.Fits ⟨owed, 0x80, 0xbf, code⟩ :=
  ⟨Nat.le_refl 128, Nat.le_refl 191⟩

theorem leaves_tail {k v owed code : Nat} :
    Pending.Leaves ⟨owed, 0x80, 0xbf, code⟩ k v ↔ v / 64 ^ (k + 1) = code := by
  rw [Nat.pow_succ, ← Nat.div_div_eq_div_mul]
  have hdigit := Nat.mod_lt (v / 64 ^ k) (show 0 < 64 by decide)
  exact ⟨fun h => h.code, fun h => ⟨h, Nat.le_add_left _ _, Nat.le_of_lt_succ (by
    change _ < 191 + 1
    omega)⟩⟩

/-- Behind the first byte of a character, the bytes of the lower bits of a code are read. -/
theorem decodeFrom_some {p : Pending} (hp : p.Fits) {k : Nat} (hk : p.owed = k + 1)
    (read cs : List Char) (bytes : List UInt8) :
    decodeFrom read (some p) bytes = .ok cs ↔ ∃ v rest,
      (p.Leaves k v ∧ bytes = continuation (k + 1) v ++ rest) ∧
        decodeFrom (Char.ofNat v :: read) none rest = .ok cs := by
  induction k generalizing p bytes with
  | zero =>
    cases bytes with
    | nil => simp [decodeFrom, continuation]
    | cons b bytes =>
      simp only [p.leaves_iff hp]
      rw [decodeFrom]
      split <;> simp [*, continuation]
  | succ k ih =>
    cases bytes with
    | nil => simp [decodeFrom, continuation]
    | cons b bytes =>
      simp only [p.leaves_iff hp]
      rw [decodeFrom]
      split
      · dsimp only
        rw [if_neg (by omega), ih (fits_tail _ _) (congrArg (· - 1) hk)]
        simp [*, leaves_tail]
      · simp [*]

/-! ## First bytes -/

theorem lead?_eq (b : UInt8) :
    lead? b =
      if b.toNat < 194 then none
      else if b.toNat < 224 then some ⟨1, 0x80, 0xbf, b.toNat - 192⟩
      else if b.toNat = 224 then some ⟨2, 0xa0, 0xbf, 0⟩
      else if b.toNat = 237 then some ⟨2, 0x80, 0x9f, 13⟩
      else if b.toNat < 240 then some ⟨2, 0x80, 0xbf, b.toNat - 224⟩
      else if b.toNat = 240 then some ⟨3, 0x90, 0xbf, 0⟩
      else if b.toNat < 244 then some ⟨3, 0x80, 0xbf, b.toNat - 240⟩
      else if b.toNat = 244 then some ⟨3, 0x80, 0x8f, 4⟩
      else none := by
  simp [lead?, UInt8.lt_iff_toNat_lt, ← UInt8.toNat_inj]

theorem fits_of_lead? {b : UInt8} {p : Pending} (h : lead? b = some p) : p.Fits := by
  rw [lead?_eq] at h
  split_ifs at h <;> cases h <;> constructor <;>
    simp only [UInt8.reduceToNat, Nat.reduceLeDiff]

theorem length_continuation (k v : Nat) : (continuation k v).length = k := by
  induction k with
  | zero => rfl
  | succ k ih => rw [continuation, List.length_cons, ih]

/-- The first byte of a code that has `k + 1` continuation bytes: it says so in its upper bits, and
the code is that of a character which needs as many. -/
def FirstByte : Nat → Nat → UInt8 → Prop
  | 0, v, b => 0x80 ≤ v ∧ v < 0x800 ∧ b.toNat = 0xc0 + v / 64
  | 1, v, b => 0x800 ≤ v ∧ v < 0x10000 ∧ v.isValidChar ∧ b.toNat = 0xe0 + v / 64 ^ 2
  | 2, v, b => 0x10000 ≤ v ∧ v < 0x110000 ∧ b.toNat = 0xf0 + v / 64 ^ 3
  | _, _, _ => False

theorem lead?_iff (b : UInt8) (k v : Nat) :
    (∃ p, lead? b = some p ∧ p.owed = k + 1 ∧ p.Leaves k v) ↔ FirstByte k v b := by
  rw [lead?_eq]
  constructor
  · rintro ⟨p, hp, hk, hcode, hlow, hhigh⟩
    split_ifs at hp <;> cases hp <;> cases hk <;>
      simp only [UInt8.reduceToNat, FirstByte, Nat.isValidChar] at * <;> omega
  · intro h
    match k with
    | 0 =>
      obtain ⟨hlow, hhigh, hb⟩ := h
      rw [if_neg (by omega), if_pos (by omega)]
      exact ⟨_, rfl, rfl, leaves_tail.mpr (by omega)⟩
    | 1 =>
      obtain ⟨hlow, hhigh, hcharacter, hb⟩ := h
      unfold Nat.isValidChar at hcharacter
      rw [if_neg (by omega), if_neg (by omega)]
      by_cases hfirst : b.toNat = 224
      · rw [if_pos hfirst]
        exact ⟨_, rfl, rfl, show _ = 0 by omega, show 160 ≤ _ by omega, show _ ≤ 191 by omega⟩
      · rw [if_neg hfirst]
        by_cases hsurrogate : b.toNat = 237
        · rw [if_pos hsurrogate]
          exact ⟨_, rfl, rfl, show _ = 13 by omega, show 128 ≤ _ by omega, show _ ≤ 159 by omega⟩
        · rw [if_neg hsurrogate, if_pos (by omega)]
          exact ⟨_, rfl, rfl, leaves_tail.mpr (by omega)⟩
    | 2 =>
      obtain ⟨hlow, hhigh, hb⟩ := h
      rw [if_neg (by omega), if_neg (by omega), if_neg (by omega), if_neg (by omega),
        if_neg (by omega)]
      by_cases hfirst : b.toNat = 240
      · rw [if_pos hfirst]
        exact ⟨_, rfl, rfl, show _ = 0 by omega, show 144 ≤ _ by omega, show _ ≤ 191 by omega⟩
      · rw [if_neg hfirst]
        by_cases hmiddle : b.toNat < 244
        · rw [if_pos hmiddle]
          exact ⟨_, rfl, rfl, leaves_tail.mpr (by omega)⟩
        · rw [if_neg hmiddle, if_pos (by omega)]
          exact ⟨_, rfl, rfl, show _ = 4 by omega, show 128 ≤ _ by omega, show _ ≤ 143 by omega⟩

theorem toNat_ofNat_of_isValidChar {v : Nat} (h : v.isValidChar) :
    (Char.ofNat v).val.toNat = v := by
  rw [Char.ofNat, dif_pos h]
  rfl

theorem encode_eq_cons {b : UInt8} (k : Nat) {v : Nat} (hv : v.isValidChar) :
    String.utf8EncodeChar (Char.ofNat v) = b :: continuation (k + 1) v ↔ FirstByte k v b := by
  have hlt : v < 0x110000 := by
    unfold Nat.isValidChar at hv
    omega
  have hfirst (n : Nat) (hn : n < 256) : UInt8.ofNat n = b ↔ b.toNat = n := by
    rw [eq_comm, eq_ofNat_iff hn]
  rw [String.utf8EncodeChar.eq_1, toNat_ofNat_of_isValidChar hv]
  match k with
  | 0 | 1 | 2 =>
    simp only [continuation, FirstByte, hv, true_and, Nat.pow_zero, Nat.div_one, Nat.reducePow]
    split_ifs <;> simp only [List.cons.injEq, reduceCtorEq, and_true, and_false, false_iff]
    all_goals first | omega | (rw [hfirst _ (by omega)]; omega)
  | k + 3 =>
    refine ⟨fun h => ?_, False.elim⟩
    have hlength := congrArg List.length h
    rw [List.length_cons, length_continuation] at hlength
    split_ifs at hlength <;> simp only [List.length_cons, List.length_nil] at hlength <;> omega

theorem FirstByte.isValidChar {k v : Nat} {b : UInt8} (h : FirstByte k v b) : v.isValidChar := by
  match k with
  | 0 | 2 =>
    obtain ⟨hlow, hhigh, -⟩ := h
    unfold Nat.isValidChar
    omega
  | 1 => exact h.2.2.1

theorem FirstByte.le {k v : Nat} {b : UInt8} (h : FirstByte k v b) : 0x80 ≤ b.toNat := by
  match k with
  | 0 | 2 =>
    obtain ⟨-, -, hb⟩ := h
    omega
  | 1 =>
    obtain ⟨-, -, -, hb⟩ := h
    omega

theorem encode_cases (c : Char) :
    String.utf8EncodeChar c = [UInt8.ofNat c.toNat] ∧ c.toNat < 0x80 ∨
      ∃ k b, String.utf8EncodeChar c = b :: continuation (k + 1) c.toNat ∧
        FirstByte k c.toNat b := by
  have hc : c.toNat.isValidChar := c.valid
  have hlt : c.toNat < 0x110000 := by
    unfold Nat.isValidChar at hc
    omega
  have hseveral {k n : Nat} (h : FirstByte k c.toNat (UInt8.ofNat n)) :
      ∃ k b, String.utf8EncodeChar c = b :: continuation (k + 1) c.toNat ∧
        FirstByte k c.toNat b := by
    refine ⟨k, _, ?_, h⟩
    have hbytes := (encode_eq_cons k hc).mpr h
    rwa [Char.ofNat_toNat] at hbytes
  have hfirst {n : Nat} (hn : n < 256) : (UInt8.ofNat n).toNat = n := (eq_ofNat_iff hn).mp rfl
  by_cases h₁ : c.toNat < 0x80
  · refine .inl ⟨?_, h₁⟩
    rw [String.utf8EncodeChar.eq_1, Char.toNat_val, if_pos (by omega)]
  · right
    by_cases h₂ : c.toNat < 0x800
    · exact @hseveral 0 _ ⟨by omega, h₂, hfirst (by omega)⟩
    · by_cases h₃ : c.toNat < 0x10000
      · exact @hseveral 1 _ ⟨by omega, h₃, hc, hfirst (by omega)⟩
      · exact @hseveral 2 _ ⟨by omega, hlt, hfirst (by omega)⟩

/-! ## Characters -/

theorem exists_owed {b : UInt8} {p : Pending} (h : lead? b = some p) : ∃ k, p.owed = k + 1 := by
  rw [lead?_eq] at h
  split_ifs at h <;> cases h <;> exact ⟨_, rfl⟩

theorem decodeFrom_lead {b : UInt8} (hb : 0x80 ≤ b.toNat) (read cs : List Char)
    (bytes : List UInt8) :
    (∃ p, lead? b = some p ∧ decodeFrom read (some p) bytes = .ok cs) ↔ ∃ c rest,
      b :: bytes = String.utf8EncodeChar c ++ rest ∧ decodeFrom (c :: read) none rest = .ok cs := by
  constructor
  · rintro ⟨p, hp, h⟩
    obtain ⟨k, hk⟩ := exists_owed hp
    obtain ⟨v, rest, ⟨hleaves, rfl⟩, hrest⟩ := (decodeFrom_some (fits_of_lead? hp) hk ..).mp h
    have hfirst := (lead?_iff b k v).mp ⟨p, hp, hk, hleaves⟩
    refine ⟨Char.ofNat v, rest, ?_, hrest⟩
    rw [(encode_eq_cons k hfirst.isValidChar).mpr hfirst, List.cons_append]
  · rintro ⟨c, rest, hbytes, h⟩
    obtain ⟨hc, hlt⟩ | ⟨k, b', hc, hfirst⟩ := encode_cases c <;> rw [hc, List.cons_append] at hbytes
    · obtain ⟨rfl, -⟩ := List.cons.inj hbytes
      rw [(eq_ofNat_iff (by omega)).mp rfl] at hb
      omega
    · obtain ⟨rfl, rfl⟩ := List.cons.inj hbytes
      obtain ⟨p, hp, hk, hleaves⟩ := (lead?_iff b k c.toNat).mpr hfirst
      refine ⟨p, hp, (decodeFrom_some (fits_of_lead? hp) hk ..).mpr ⟨_, _, ⟨hleaves, rfl⟩, ?_⟩⟩
      rwa [Char.ofNat_toNat]

theorem decodeFrom_single {b : UInt8} (hb : b.toNat < 0x80) (read cs : List Char)
    (bytes : List UInt8) :
    decodeFrom (Char.ofNat b.toNat :: read) none bytes = .ok cs ↔ ∃ c rest,
      b :: bytes = String.utf8EncodeChar c ++ rest ∧ decodeFrom (c :: read) none rest = .ok cs := by
  constructor
  · intro h
    have hval := toNat_ofNat_of_isValidChar (.inl (by omega) : b.toNat.isValidChar)
    refine ⟨Char.ofNat b.toNat, bytes, ?_, h⟩
    rw [String.utf8EncodeChar.eq_1, hval, if_pos (by omega), UInt8.ofNat_toNat]
    rfl
  · rintro ⟨c, rest, hbytes, h⟩
    obtain ⟨hc, hlt⟩ | ⟨k, b', hc, hfirst⟩ := encode_cases c <;> rw [hc, List.cons_append] at hbytes
    · obtain ⟨rfl, rfl⟩ := List.cons.inj hbytes
      rwa [(eq_ofNat_iff (by omega)).mp rfl, Char.ofNat_toNat]
    · obtain ⟨rfl, -⟩ := List.cons.inj hbytes
      have := hfirst.le
      omega

theorem decodeFrom_cons (read cs : List Char) (b : UInt8) (bytes : List UInt8) :
    decodeFrom read none (b :: bytes) = .ok cs ↔ ∃ c rest,
      b :: bytes = String.utf8EncodeChar c ++ rest ∧ decodeFrom (c :: read) none rest = .ok cs := by
  rw [decodeFrom]
  split
  case isTrue hb => exact decodeFrom_single (UInt8.lt_iff_toNat_lt.mp hb) read cs bytes
  case isFalse hb =>
    rw [UInt8.lt_iff_toNat_lt, Nat.not_lt] at hb
    rw [← decodeFrom_lead hb]
    cases lead? b <;> simp

theorem decodeFrom_encoded (read cs : List Char) :
    decodeFrom read none (cs.flatMap String.utf8EncodeChar) = .ok (read.reverse ++ cs) := by
  induction cs generalizing read with
  | nil => rw [List.flatMap_nil, decodeFrom, List.append_nil]
  | cons c cs ih =>
    cases hbytes : (c :: cs).flatMap String.utf8EncodeChar with
    | nil => simp [String.utf8EncodeChar_ne_nil] at hbytes
    | cons b bytes =>
      rw [decodeFrom_cons]
      refine ⟨c, cs.flatMap String.utf8EncodeChar, by rw [← hbytes, List.flatMap_cons], ?_⟩
      simp [ih]

theorem exists_of_decodeFrom {read cs : List Char} {bytes : List UInt8}
    (h : decodeFrom read none bytes = .ok cs) :
    ∃ more, cs = read.reverse ++ more ∧ more.flatMap String.utf8EncodeChar = bytes := by
  match bytes with
  | [] =>
    rw [decodeFrom] at h
    cases h
    exact ⟨[], (List.append_nil _).symm, rfl⟩
  | b :: bytes =>
    obtain ⟨c, rest, hbytes, h⟩ := (decodeFrom_cons read cs b bytes).mp h
    have hlt : rest.length < (b :: bytes).length := by
      have := List.length_pos_iff.mpr (String.utf8EncodeChar_ne_nil (c := c))
      rw [hbytes, List.length_append]
      omega
    obtain ⟨more, rfl, hmore⟩ := exists_of_decodeFrom h
    exact ⟨c :: more, by simp, by rw [hbytes, List.flatMap_cons, hmore]⟩
termination_by bytes.length
decreasing_by exact hlt

end Utf8

/-- **Bytes are decoded as a text exactly if they are its encoding.** -/
theorem decodeUtf8_eq_ok {bytes : List UInt8} {cs : List Char} :
    decodeUtf8 bytes = .ok cs ↔ cs.flatMap String.utf8EncodeChar = bytes := by
  constructor
  · intro h
    obtain ⟨more, rfl, hmore⟩ := Utf8.exists_of_decodeFrom h
    exact hmore
  · rintro rfl
    exact Utf8.decodeFrom_encoded [] cs

end KLang
