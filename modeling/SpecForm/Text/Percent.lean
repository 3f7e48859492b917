/-!
# Percent encoding

A byte may be written as `%` and two hexadecimal digits.  Decoding works on
bytes, so a decoded text need not be UTF-8; a `%` that does not start such a
triple stands for itself.
-/

namespace SpecForm.Text.Percent

def hexValue? (c : Char) : Option Nat :=
  if '0' ≤ c ∧ c ≤ '9' then some (c.toNat - '0'.toNat)
  else if 'a' ≤ c ∧ c ≤ 'f' then some (c.toNat - 'a'.toNat + 10)
  else if 'A' ≤ c ∧ c ≤ 'F' then some (c.toNat - 'A'.toNat + 10)
  else none

def hexDigit (n : Nat) : Char :=
  Char.ofNat (if n < 10 then '0'.toNat + n else 'A'.toNat + (n - 10))

def encodeByte (byte : UInt8) : List Char :=
  ['%', hexDigit (byte.toNat / 16), hexDigit (byte.toNat % 16)]

def encode (escaped : Char → Bool) (text : List Char) : List Char :=
  text.flatMap fun c =>
    if escaped c then (String.utf8EncodeChar c).flatMap encodeByte else [c]

def decode : List Char → List UInt8
  | [] => []
  | '%' :: high :: low :: rest =>
      match hexValue? high, hexValue? low with
      | some h, some l => UInt8.ofNat (16 * h + l) :: decode rest
      | _, _ => String.utf8EncodeChar '%' ++ decode (high :: low :: rest)
  | c :: rest => String.utf8EncodeChar c ++ decode rest

def decodeText? (text : List Char) : Option String :=
  String.fromUTF8? ⟨(decode text).toArray⟩

theorem decode_of_notMem {text : List Char} (h : '%' ∉ text) :
    decode text = text.flatMap String.utf8EncodeChar := by
  fun_induction decode text with
  | case1 => rfl
  | case2 => simp at h
  | case3 => simp at h
  | case4 c rest _ ih =>
      rw [List.mem_cons, not_or] at h
      rw [ih h.2, List.flatMap_cons]

theorem decodeText?_of_decode {text plain : List Char}
    (h : decode text = plain.flatMap String.utf8EncodeChar) :
    decodeText? text = some (String.ofList plain) := by
  have hbytes : (⟨(decode text).toArray⟩ : ByteArray) = (String.ofList plain).toByteArray := by
    apply ByteArray.ext
    rw [String.toByteArray_ofList, List.utf8Encode, List.data_toByteArray, h]
  rw [decodeText?, hbytes, String.fromUTF8?, dif_pos (String.ofList plain).isValidUTF8]
  rfl

theorem decodeText?_of_notMem {text : List Char} (h : '%' ∉ text) :
    decodeText? text = some (String.ofList text) :=
  decodeText?_of_decode (decode_of_notMem h)

end SpecForm.Text.Percent
