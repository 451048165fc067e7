import Mathlib.Data.List.Basic

/-! # Bytes read as UTF-8

Any bytes are read as characters and bytes that no character begins with, one by one, where they
stand. There is one way to read them (`Reads.unique`). -/

namespace PrinterDriver.Lib.Utf8

/-- What is read at once. -/
inductive Item where
  | char (c : Char)
  | malformed (b : UInt8)
  deriving DecidableEq

def Item.bytes : Item → List UInt8
  | .char c => String.utf8EncodeChar c
  | .malformed b => [b]

inductive Reads : List UInt8 → List Item → Prop
  | nil : Reads [] []
  | char (c : Char) {rest : List UInt8} {items : List Item} (h : Reads rest items) :
      Reads (String.utf8EncodeChar c ++ rest) (.char c :: items)
  | malformed {b : UInt8} {rest : List UInt8} {items : List Item}
      (hnone : ∀ c, ¬String.utf8EncodeChar c <+: b :: rest) (h : Reads rest items) :
      Reads (b :: rest) (.malformed b :: items)

/-- Only one character begins a text. -/
theorem char_unique {c d : Char} {front rest : List UInt8}
    (h : String.utf8EncodeChar c ++ front = String.utf8EncodeChar d ++ rest) : c = d := by
  have hdecode : ∀ (c : Char) (l : List UInt8),
      ByteArray.utf8DecodeChar? (String.utf8EncodeChar c ++ l).toByteArray 0 = some c := by
    intro c l
    rw [List.toByteArray_append]
    exact ByteArray.utf8DecodeChar?_utf8EncodeChar_append
  have hc := hdecode c front
  rw [h, hdecode d rest] at hc
  exact (Option.some.inj hc).symm

theorem encode_ne_nil (c : Char) : String.utf8EncodeChar c ≠ [] := String.utf8EncodeChar_ne_nil

namespace Reads

/-- There is one way to read a text. -/
theorem unique {text : List UInt8} {items : List Item} (h : Reads text items) :
    ∀ {items'}, Reads text items' → items = items' := by
  induction h with
  | nil =>
    intro items' h'
    generalize hnil : ([] : List UInt8) = text at h'
    cases h' with
    | nil => rfl
    | char d h' => exact absurd (List.append_eq_nil_iff.mp hnil.symm).1 (encode_ne_nil d)
    | malformed hnone h' => cases hnil
  | @char c rest items h ih =>
    intro items' h'
    generalize htext : String.utf8EncodeChar c ++ rest = text at h'
    cases h' with
    | nil => exact absurd (List.append_eq_nil_iff.mp htext).1 (encode_ne_nil c)
    | char d h' =>
      obtain rfl := char_unique htext
      rw [ih (List.append_cancel_left htext ▸ h')]
    | malformed hnone h' => exact absurd ⟨rest, htext⟩ (hnone c)
  | @malformed b rest items hnone h ih =>
    intro items' h'
    generalize htext : b :: rest = text at h'
    cases h' with
    | nil => cases htext
    | char d h' => exact absurd ⟨_, htext.symm⟩ (hnone d)
    | malformed hnone' h' =>
      obtain ⟨rfl, rfl⟩ := List.cons.inj htext
      rw [ih h']

/-- The items spell the text. -/
theorem bytes_eq {text : List UInt8} {items : List Item} (h : Reads text items) :
    items.flatMap Item.bytes = text := by
  induction h with
  | nil => rfl
  | char c h ih => rw [List.flatMap_cons, ih, Item.bytes]
  | malformed hnone h ih => rw [List.flatMap_cons, ih, Item.bytes, List.singleton_append]

end Reads

end PrinterDriver.Lib.Utf8
