/-! The bytes of a text in UTF-8. -/

namespace CacheNode.Text

def utf8 (s : String) : List UInt8 := s.toByteArray.data.toList

@[simp] theorem utf8_append (s t : String) : utf8 (s ++ t) = utf8 s ++ utf8 t := by
  simp [utf8]

theorem utf8_inj {s t : String} : utf8 s = utf8 t ↔ s = t := by
  simp only [utf8, Array.toList_inj]
  rw [← ByteArray.ext_iff, String.toByteArray_inj]

end CacheNode.Text
