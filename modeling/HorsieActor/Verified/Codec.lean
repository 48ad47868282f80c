import Mathlib.Data.Countable.Defs
import Mathlib.Logic.Equiv.List

/-!
# Serializers

A serializer together with the parser that undoes it, the round trip being a
field: what a development assumes of a serialization library is exactly that one
is given.  `ofCountable` says that there is one for every countable type, so the
assumption can always be met, and `short` gives two values of interest one-byte
encodings, so that a run that writes them can be evaluated.
-/

namespace HorsieActor.Verified

/-- A serializer and a parser that reads back what it wrote. -/
structure Codec (α : Type) where
  encode : α → List UInt8
  decode : List UInt8 → Option α
  decode_encode : ∀ a, decode (encode a) = some a

namespace Codec

variable {α : Type}

/-- Number the values and write the number in unary. -/
noncomputable def ofCountable (α : Type) [Countable α] : Codec α :=
  have h := Countable.exists_injective_nat α
  open Classical in
  { encode := fun a => List.replicate (h.choose a) 0
    decode := fun bytes =>
      if hb : ∃ a, h.choose a = bytes.length then some hb.choose else none
    decode_encode := fun a => by
      have hb : ∃ b, h.choose b = (List.replicate (h.choose a) (0 : UInt8)).length :=
        ⟨a, List.length_replicate.symm⟩
      have heq : hb.choose = a :=
        h.choose_spec (hb.choose_spec.trans List.length_replicate)
      rw [dif_pos hb, heq] }

/-- Encode `a` and `b` in one byte, and everything else behind a zero. -/
def short [DecidableEq α] (codec : Codec α) (a b : α) : Codec α where
  encode x := if x = a then [1] else if x = b then [2] else 0 :: codec.encode x
  decode
    | 0 :: rest => codec.decode rest
    | [1] => some a
    | [2] => some b
    | _ => none
  decode_encode x := by
    by_cases ha : x = a
    · simp [ha]
    · by_cases hb : x = b
      · subst hb
        simp [ha]
      · simp [ha, hb, codec.decode_encode]

end Codec

instance countableString : Countable String :=
  have : Countable Char :=
    Function.Injective.countable (f := Char.toNat) fun _ _ h => Char.ext (UInt32.toNat_inj.mp h)
  Function.Injective.countable (f := String.toList) fun _ _ h => String.toList_injective h

end HorsieActor.Verified
