import FetchQuery.Text.Basic

/-!
# Bytes

Documents and shell input arrive as bytes. A text is recovered from them when they are
UTF-8. Input for the shell is cut into lines before it is decoded, so that a line that
is not UTF-8 does not spoil the lines before it.
-/

namespace FetchQuery

/-- A sequence of bytes. -/
abbrev Bytes := List UInt8

namespace Bytes

/-- The text that some bytes write in UTF-8. -/
def text? (bytes : Bytes) : Option Text :=
  (String.fromUTF8? bytes.toByteArray).map String.toList

/-- The byte that ends a line. -/
def lineFeed : UInt8 := 0x0A

/-- The lines of some bytes, each with the line feed that ends it. Bytes after the last
line feed are a line of their own. -/
def lines : Bytes → List Bytes
  | [] => []
  | byte :: rest =>
      if byte == lineFeed then [byte] :: lines rest
      else
        match lines rest with
        | [] => [[byte]]
        | line :: more => (byte :: line) :: more

/-- The lines together are the bytes. -/
theorem flatten_lines (bytes : Bytes) : (lines bytes).flatten = bytes := by
  induction bytes with
  | nil => rfl
  | cons byte rest ih =>
      unfold lines
      split
      · simp [ih]
      · split
        · next h => simp_all
        · next line more h => simp_all

end Bytes

namespace Text

/-- The bytes that write a text in UTF-8. -/
def utf8 (text : Text) : Bytes :=
  text.flatMap String.utf8EncodeChar

@[simp] theorem utf8_append (first second : Text) :
    utf8 (first ++ second) = utf8 first ++ utf8 second := by
  simp [utf8]

/-- Decoding undoes encoding. -/
theorem text?_utf8 (text : Text) : Bytes.text? (utf8 text) = some text := by
  have valid : (utf8 text).toByteArray.IsValidUTF8 := ByteArray.isValidUTF8_utf8Encode
  have same : String.fromUTF8 (utf8 text).toByteArray valid = String.ofList text := rfl
  simp [Bytes.text?, String.fromUTF8?, valid, same]

/-- Encoding undoes decoding. -/
theorem utf8_of_text? {bytes : Bytes} {text : Text} (h : bytes.text? = some text) :
    utf8 text = bytes := by
  unfold Bytes.text? String.fromUTF8? at h
  split at h
  · next valid =>
    cases h
    have written := String.toByteArray_ofList (l := (String.fromUTF8 bytes.toByteArray valid).toList)
    rw [String.ofList_toList] at written
    exact List.toByteArray_inj.mp written.symm
  · exact nomatch h

end Text

end FetchQuery
