import SqlInjection.Text.Basic

/-!
# Texts as bytes

Files hold bytes. `Text.encode` writes a text in UTF-8, and `Text.decode?` reads bytes that are
UTF-8. What was written is read back (`decode?_encode`).
-/

namespace SqlInjection.Text

/-- The bytes of a text. -/
def encode (t : Text) : ByteArray := (String.ofList t).toUTF8

/-- The text that bytes stand for, if they stand for one. -/
def decode? (b : ByteArray) : Option Text := (String.fromUTF8? b).map String.toList

theorem decode?_encode (t : Text) : decode? (encode t) = some t := by
  have h : (String.ofList t).toUTF8.IsValidUTF8 := (String.ofList t).isValidUTF8
  unfold decode? encode String.fromUTF8?
  rw [dif_pos h]
  exact congrArg some String.toList_ofList

end SqlInjection.Text
