import Smalltalk.ByteSource

namespace Smalltalk

/-! Words that stand in a row in a source of bytes can be read back, one at a time
or all together, whatever the order of their bytes. -/

namespace ByteOrder

theorem byteOf_joinBytes (a b c d : UInt8) :
    byteOf (joinBytes a b c d) 0 = d ∧ byteOf (joinBytes a b c d) 1 = c ∧
      byteOf (joinBytes a b c d) 2 = b ∧ byteOf (joinBytes a b c d) 3 = a := by
  have := a.toNat_lt
  have := b.toNat_lt
  have := c.toNat_lt
  have := d.toNat_lt
  refine ⟨?_, ?_, ?_, ?_⟩ <;>
  · apply UInt8.toNat_inj.mp
    simp only [byteOf, joinBytes, Nat.shiftRight_eq_div_pow, UInt8.toNat_ofNat',
      UInt32.toNat_ofNat']
    omega

/-- A word is made of the bytes that it was read from. -/
theorem bytes_word (order : ByteOrder) (a b c d : UInt8) :
    order.bytes (order.word a b c d) = [a, b, c, d] := by
  cases order with
  | big =>
    obtain ⟨lowest, low, high, highest⟩ := byteOf_joinBytes a b c d
    simp [bytes, word, lowest, low, high, highest]
  | little =>
    obtain ⟨lowest, low, high, highest⟩ := byteOf_joinBytes d c b a
    simp [bytes, word, lowest, low, high, highest]

/-- The bytes of a word read as that word. -/
theorem exists_bytes_eq (order : ByteOrder) (word : UInt32) :
    ∃ a b c d, order.bytes word = [a, b, c, d] ∧ order.word a b c d = word := by
  cases order with
  | big => exact ⟨_, _, _, _, rfl, joinBytes_byteOf word⟩
  | little => exact ⟨_, _, _, _, rfl, joinBytes_byteOf word⟩

theorem length_flatMap_bytes (order : ByteOrder) (words : List UInt32) :
    (words.flatMap order.bytes).length = 4 * words.length := by
  induction words with
  | nil => rfl
  | cons word words ih => simp [ih]; omega

/-- The words whose bytes are the given ones, four for each. -/
def pack (order : ByteOrder) : List UInt8 → List UInt32
  | a :: b :: c :: d :: rest => order.word a b c d :: pack order rest
  | _ => []

@[simp] theorem length_pack (order : ByteOrder) (data : List UInt8) :
    (order.pack data).length = data.length / 4 := by
  fun_induction pack order data with
  | case1 a b c d rest ih =>
    simp only [List.length_cons, ih]
    omega
  | case2 data short =>
    match data, short with
    | [], _ | [_], _ | [_, _], _ | [_, _, _], _ => simp
    | a :: b :: c :: d :: rest, short => exact absurd rfl (short a b c d rest)

/-- Whole words keep their bytes in the order of the file. -/
theorem flatMap_bytes_pack (order : ByteOrder) (data : List UInt8) (whole : data.length % 4 = 0) :
    (order.pack data).flatMap order.bytes = data := by
  fun_induction pack order data with
  | case1 a b c d rest ih =>
    have restWhole : rest.length % 4 = 0 := by
      simp only [List.length_cons] at whole
      omega
    simp [bytes_word, ih restWhole]
  | case2 data short =>
    match data, short with
    | [], _ => rfl
    | [_], _ | [_, _], _ | [_, _, _], _ => simp at whole
    | a :: b :: c :: d :: rest, short => exact absurd rfl (short a b c d rest)

end ByteOrder

namespace ByteSource

/-- The words stand in a row in the source from a place on. -/
structure Holds (source : ByteSource) (order : ByteOrder) (place : Nat)
    (words : List UInt32) : Prop where
  fits : place + 4 * words.length ≤ source.bytes.size
  reads : ∀ index word, words[index]? = some word →
    source.word? order (place + 4 * index) = some word

variable {source : ByteSource} {order : ByteOrder} {place : Nat} {words : List UInt32}

theorem word?_of_append {before after : List UInt8} {word : UInt32}
    (split : source.bytes.toList = before ++ order.bytes word ++ after) :
    source.word? order before.length = some word := by
  obtain ⟨a, b, c, d, bytesEq, wordEq⟩ := order.exists_bytes_eq word
  have byteAt (index : Nat) :
      source.bytes[before.length + index]? = ([a, b, c, d] ++ after)[index]? := by
    rw [← Array.getElem?_toList, split, bytesEq, List.append_assoc,
      List.getElem?_append_right (by omega), Nat.add_sub_cancel_left]
  have first := byteAt 0
  rw [Nat.add_zero] at first
  simp [word?, first, byteAt, wordEq]

theorem holds_of_append {before after : List UInt8}
    (split : source.bytes.toList = before ++ words.flatMap order.bytes ++ after) :
    source.Holds order before.length words where
  fits := by
    have length := congrArg List.length split
    simp only [List.length_append, order.length_flatMap_bytes, Array.length_toList] at length
    omega
  reads index word found := by
    obtain ⟨inside, here⟩ := List.getElem?_eq_some_iff.mp found
    have wordsSplit : words = words.take index ++ word :: words.drop (index + 1) := by
      rw [← here, ← List.drop_eq_getElem_cons, List.take_append_drop]
    have placed : source.bytes.toList
        = (before ++ (words.take index).flatMap order.bytes) ++ order.bytes word
          ++ ((words.drop (index + 1)).flatMap order.bytes ++ after) := by
      rw [split]
      conv => lhs; rw [wordsSplit]
      simp
    have read := word?_of_append placed
    rw [List.length_append, order.length_flatMap_bytes, List.length_take_of_le (Nat.le_of_lt inside)] at read
    exact read

/-- Words in a row hold every part of them. -/
theorem Holds.part {before after : List UInt32}
    (holds : source.Holds order place (before ++ words ++ after)) :
    source.Holds order (place + 4 * before.length) words where
  fits := by
    have := holds.fits
    simp only [List.length_append] at this
    omega
  reads index word found := by
    have inside := (List.getElem?_eq_some_iff.mp found).1
    have shifted : (before ++ words ++ after)[before.length + index]? = some word := by
      rw [List.getElem?_append_left (by simp; omega), List.getElem?_append_right (by omega),
        Nat.add_sub_cancel_left, found]
    have read := holds.reads _ _ shifted
    rwa [show place + 4 * before.length + 4 * index = place + 4 * (before.length + index) by omega]

theorem Holds.wordAt (holds : source.Holds order place words) (index : Nat) {word : UInt32}
    (found : words[index]? = some word) :
    source.wordAt order (place + 4 * index) = .ok word := by
  simp [ByteSource.wordAt, holds.reads index word found]

theorem Holds.wordsAt (holds : source.Holds order place words) :
    source.wordsAt order place words.length = .ok words.toArray := by
  rw [ByteSource.wordsAt, if_pos holds.fits]
  congr 1
  apply Array.ext
  · simp
  · intro index _ inside
    have inList : index < words.length := by simpa using inside
    simp [holds.reads index words[index] (List.getElem?_eq_getElem inList)]

end ByteSource

end Smalltalk
