import Mathlib.Data.List.Basic

/-!
# Well-formed UTF-8 and where it can be cut

A byte string is well formed when it is the encoding of a list of characters. The results say how
well-formedness meets concatenation: two pieces can be judged separately as soon as the second one
starts a character, and a prefix of a well-formed string is well formed exactly when the cut lies
between two characters.
-/

namespace Lib.Utf8

def encode (text : List Char) : List UInt8 := text.flatMap String.utf8EncodeChar

def WellFormed (s : List UInt8) : Prop := ∃ text, encode text = s

/-- The byte at offset `k`, if there is one, starts a character. -/
def Boundary (s : List UInt8) (k : Nat) : Prop := ∀ b ∈ s[k]?, b.IsUTF8FirstByte

instance (s : List UInt8) (k : Nat) : Decidable (Boundary s k) :=
  match located : s[k]? with
  | none => isTrue (by simp [Boundary, located])
  | some b => decidable_of_iff b.IsUTF8FirstByte (by simp [Boundary, located])

def Ascii (s : List UInt8) : Prop := ∀ b ∈ s, b < 128

instance (s : List UInt8) : Decidable (Ascii s) := List.decidableBAll (· < 128) s

theorem Ascii.append {s t : List UInt8} (first : Ascii s) (second : Ascii t) : Ascii (s ++ t) :=
  fun b member => (List.mem_append.mp member).elim (first b) (second b)

theorem ascii_replicate {b : UInt8} (ascii : b < 128) (count : Nat) : Ascii (List.replicate count b) :=
  fun _ member => List.eq_of_mem_replicate member ▸ ascii

theorem encode_cons (c : Char) (text : List Char) :
    encode (c :: text) = String.utf8EncodeChar c ++ encode text := List.flatMap_cons

theorem encode_append (first second : List Char) :
    encode (first ++ second) = encode first ++ encode second := List.flatMap_append

theorem wellFormed_nil : WellFormed [] := ⟨[], rfl⟩

theorem WellFormed.append {s t : List UInt8} (hs : WellFormed s) (ht : WellFormed t) :
    WellFormed (s ++ t) := by
  obtain ⟨first, rfl⟩ := hs
  obtain ⟨second, rfl⟩ := ht
  exact ⟨first ++ second, encode_append first second⟩

theorem utf8EncodeChar_ascii {b : UInt8} (ascii : b < 128) :
    String.utf8EncodeChar (Char.ofNat b.toNat) = [b] := by
  have all : ∀ n : Fin 128, String.utf8EncodeChar (Char.ofNat n.val) = [UInt8.ofNat n.val] := by decide
  have small : b.toNat < 128 := UInt8.lt_iff_toNat_lt.mp ascii
  simpa using all ⟨b.toNat, small⟩

theorem wellFormed_ascii {s : List UInt8} (ascii : Ascii s) : WellFormed s := by
  induction s with
  | nil => exact wellFormed_nil
  | cons b s ih =>
      obtain ⟨text, encoded⟩ := ih fun c member => ascii c (List.mem_cons_of_mem _ member)
      refine ⟨Char.ofNat b.toNat :: text, ?_⟩
      rw [encode_cons, utf8EncodeChar_ascii (ascii b List.mem_cons_self), encoded, List.singleton_append]

theorem isUTF8FirstByte_ascii {b : UInt8} (ascii : b < 128) : b.IsUTF8FirstByte := by
  have all : ∀ n : Fin 128, (UInt8.ofNat n.val).IsUTF8FirstByte := by decide
  have small : b.toNat < 128 := UInt8.lt_iff_toNat_lt.mp ascii
  simpa using all ⟨b.toNat, small⟩

theorem utf8EncodeChar_prefix_free {c d : Char} {s t : List UInt8}
    (same : String.utf8EncodeChar c ++ s = String.utf8EncodeChar d ++ t) : c = d ∧ s = t := by
  have decoded (e : Char) (u : List UInt8) :
      ((String.utf8EncodeChar e ++ u).toByteArray).utf8DecodeChar? 0 = some e := by
    rw [List.toByteArray_append]
    exact ByteArray.utf8DecodeChar?_utf8EncodeChar_append
  have heads : c = d := by
    have := decoded c s
    rw [same, decoded d t] at this
    exact (Option.some.inj this).symm
  subst heads
  exact ⟨rfl, List.append_cancel_left same⟩

theorem wellFormed_cons_iff (c : Char) (s : List UInt8) :
    WellFormed (String.utf8EncodeChar c ++ s) ↔ WellFormed s := by
  constructor
  · rintro ⟨text, encoded⟩
    cases text with
    | nil =>
        have := congrArg List.length encoded
        simp only [encode, List.flatMap_nil, List.length_nil, List.length_append,
          String.length_utf8EncodeChar] at this
        have := c.utf8Size_pos
        omega
    | cons d text =>
        rw [encode_cons] at encoded
        exact ⟨text, (utf8EncodeChar_prefix_free encoded).2⟩
  · rintro ⟨text, rfl⟩
    exact ⟨c :: text, encode_cons c text⟩

theorem wellFormed_of_append {s t : List UInt8} (formed : WellFormed (s ++ t))
    (starts : Boundary t 0) : WellFormed s ∧ WellFormed t := by
  obtain ⟨text, encoded⟩ := formed
  induction text generalizing s with
  | nil =>
      obtain ⟨rfl, rfl⟩ := List.append_eq_nil_iff.mp encoded.symm
      exact ⟨wellFormed_nil, wellFormed_nil⟩
  | cons c text ih =>
      rw [encode_cons] at encoded
      rcases s with _ | ⟨b, s⟩
      · exact ⟨wellFormed_nil, c :: text, by rw [encode_cons]; simpa using encoded⟩
      · rcases List.append_eq_append_iff.mp encoded with ⟨rest, split, remaining⟩ | ⟨rest, split, remaining⟩
        · obtain ⟨before, after⟩ := ih remaining
          exact ⟨split ▸ (wellFormed_cons_iff c rest).mpr before, after⟩
        · -- the cut would leave `rest`, the end of `c`, at the start of `t`
          cases rest with
          | nil =>
              rw [List.append_nil] at split
              refine ⟨split ▸ ⟨[c], by simp [encode]⟩, text, ?_⟩
              simpa using remaining.symm
          | cons first rest =>
              have inside : (String.utf8EncodeChar c)[s.length + 1]? = some first := by
                rw [split]; simp
              obtain ⟨bound, located⟩ := List.getElem?_eq_some_iff.mp inside
              have isFirst : first.IsUTF8FirstByte := starts first (by rw [remaining]; simp)
              rw [← located, UInt8.isUTF8FirstByte_getElem_utf8EncodeChar] at isFirst
              omega

theorem wellFormed_append_iff {s t : List UInt8} (starts : Boundary t 0) :
    WellFormed (s ++ t) ↔ WellFormed s ∧ WellFormed t :=
  ⟨fun formed => wellFormed_of_append formed starts, fun formed => formed.1.append formed.2⟩

theorem wellFormed_ascii_append_iff {s t : List UInt8} (ascii : Ascii s) :
    WellFormed (s ++ t) ↔ WellFormed t := by
  induction s with
  | nil => rfl
  | cons b s ih =>
      rw [List.cons_append, ← List.singleton_append, ← utf8EncodeChar_ascii (ascii b List.mem_cons_self),
        wellFormed_cons_iff, ih fun c member => ascii c (List.mem_cons_of_mem _ member)]

theorem wellFormed_flatMap_iff {α : Type} {piece : α → List UInt8} {separator rest : List UInt8} {items : List α}
    (ascii : Ascii separator) (nonempty : separator ≠ []) :
    WellFormed (items.flatMap (fun item => piece item ++ separator) ++ rest) ↔
      (∀ item ∈ items, WellFormed (piece item)) ∧ WellFormed rest := by
  induction items with
  | nil => simp
  | cons item items ih =>
      have starts (tail : List UInt8) : Boundary (separator ++ tail) 0 := by
        obtain ⟨first, others, rfl⟩ := List.exists_cons_of_ne_nil nonempty
        intro b member
        obtain rfl := Option.some.inj member
        exact isUTF8FirstByte_ascii (ascii first List.mem_cons_self)
      rw [List.flatMap_cons, List.append_assoc, List.append_assoc, wellFormed_append_iff (starts _),
        wellFormed_ascii_append_iff ascii, ih, List.forall_mem_cons, and_assoc]

/-- A prefix of a well-formed string is well formed exactly when it ends between characters. -/
theorem wellFormed_take_iff {s : List UInt8} (formed : WellFormed s) (k : Nat) :
    WellFormed (s.take k) ↔ Boundary s k := by
  have cutHead : (s.drop k)[0]? = s[k]? := by rw [List.getElem?_drop, Nat.add_zero]
  constructor
  · intro kept
    obtain ⟨text, rfl⟩ := formed
    induction text generalizing k with
    | nil => simp [Boundary, encode]
    | cons c text ih =>
        rw [encode_cons] at kept ⊢
        by_cases whole : (String.utf8EncodeChar c).length ≤ k
        · rw [List.take_append, List.take_of_length_le whole, wellFormed_cons_iff] at kept
          simpa [Boundary, List.getElem?_append_right whole] using ih _ (by rw [List.getElem?_drop, Nat.add_zero]) kept
        · rcases k with _ | k
          · intro b member
            have position : 0 < (String.utf8EncodeChar c).length := by omega
            rw [List.getElem?_append_left position, List.getElem?_eq_getElem position] at member
            obtain rfl := Option.some.inj member
            exact UInt8.isUTF8FirstByte_getElem_utf8EncodeChar.mpr rfl
          · -- a well-formed proper prefix of one character would be a shorter character
            rw [List.take_append_of_le_length (by omega)] at kept
            obtain ⟨shorter, encoded⟩ := kept
            cases shorter with
            | nil => simp [encode] at encoded
            | cons d rest =>
                have rejoined : String.utf8EncodeChar d ++
                    (encode rest ++ (String.utf8EncodeChar c).drop (k + 1)) =
                    String.utf8EncodeChar c ++ [] := by
                  rw [← List.append_assoc, ← encode_cons, encoded, List.take_append_drop, List.append_nil]
                obtain ⟨rfl, empty⟩ := utf8EncodeChar_prefix_free rejoined
                have past := List.drop_eq_nil_iff.mp (List.append_eq_nil_iff.mp empty).2
                omega
  · intro boundary
    have parts : WellFormed (s.take k ++ s.drop k) := by rwa [List.take_append_drop]
    exact (wellFormed_of_append parts (by rw [Boundary, cutHead]; exact boundary)).1

end Lib.Utf8
