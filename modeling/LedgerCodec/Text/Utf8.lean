import LedgerCodec.Bytes
/-!
# Text as bytes

The wire holds text as UTF-8. `utf8` is that form of a text and `ofUtf8?` reads
it, refusing bytes that no text has: `ofUtf8?_utf8` and `utf8_of_ofUtf8?`.
-/

namespace LedgerCodec

/-- The UTF-8 bytes of a text. -/
def utf8 (s : String) : Bytes :=
  s.toByteArray.data.toList

/-- The text with these UTF-8 bytes, if there is one. -/
def ofUtf8? (bs : Bytes) : Option String :=
  String.fromUTF8? ⟨bs.toArray⟩

@[simp]
theorem ofUtf8?_utf8 (s : String) : ofUtf8? (utf8 s) = some s := by
  have h : (⟨(utf8 s).toArray⟩ : ByteArray) = s.toByteArray := by simp [utf8]
  rw [ofUtf8?, h, String.fromUTF8?, dif_pos s.isValidUTF8]
  rfl

theorem utf8_of_ofUtf8? {bs : Bytes} {s : String} (h : ofUtf8? bs = some s) : utf8 s = bs := by
  rw [ofUtf8?, String.fromUTF8?] at h
  split at h
  · cases h; simp [utf8, String.fromUTF8]
  · cases h

theorem utf8_ofList (cs : List Char) :
    utf8 (String.ofList cs) = cs.flatMap String.utf8EncodeChar := by
  rw [utf8, String.toByteArray_ofList, List.utf8Encode, List.toList_data_toByteArray]

theorem utf8_injective {s t : String} (h : utf8 s = utf8 t) : s = t := by
  have := congrArg ofUtf8? h
  simpa using this

end LedgerCodec
