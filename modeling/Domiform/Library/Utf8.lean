import Mathlib.Tactic

/-! Texts as bytes. The encoding is UTF-8; a byte below 128 is a character of its own, in every text. -/
namespace Library.Utf8

def encode (cs : List Char) : List UInt8 := cs.flatMap String.utf8EncodeChar

/-- The text of valid UTF-8, and nothing of other bytes. -/
def decode (bs : List UInt8) : Option (List Char) := bs.toByteArray.utf8Decode?.map Array.toList

@[simp] theorem encode_nil : encode [] = [] := rfl

@[simp] theorem encode_append (cs ds : List Char) : encode (cs ++ ds) = encode cs ++ encode ds :=
  List.flatMap_append

@[simp] theorem encode_cons (c : Char) (cs : List Char) :
    encode (c :: cs) = String.utf8EncodeChar c ++ encode cs := rfl

/-- Every text is read back from its encoding. -/
@[simp] theorem decode_encode (cs : List Char) : decode (encode cs) = some cs := by
  have h : (encode cs).toByteArray = cs.utf8Encode := rfl
  rw [decode,h,List.utf8Decode?_utf8Encode]
  rfl

/-- Texts with one encoding are the same. -/
theorem encode_injective : Function.Injective encode := by
  intro cs ds h
  have hd := decode_encode ds
  rw [← h,decode_encode] at hd
  exact Option.some.inj hd

/-- What is read of bytes is what they encode. -/
theorem decode_eq_some {bs : List UInt8} {cs : List Char} : decode bs = some cs ↔ encode cs = bs := by
  constructor
  · intro h
    obtain ⟨a,ha,rfl⟩ := Option.map_eq_some_iff.mp h
    have valid : bs.toByteArray.utf8Decode?.isSome = true := by rw [ha]; rfl
    have whole : (bs.toByteArray.utf8Decode?.get valid).toList.utf8Encode = bs.toByteArray :=
      ByteArray.utf8Encode_get_utf8Decode?
    have got : bs.toByteArray.utf8Decode?.get valid = a := Option.get_of_eq_some valid ha
    rw [got] at whole
    have bytes : (encode a.toList).toByteArray = bs.toByteArray := whole
    simpa using congrArg (fun b : ByteArray => b.data.toList) bytes
  · rintro rfl
    exact decode_encode cs

/-- A text that is encoded at the start of another is its start. -/
theorem prefix_of_encode {cs ds : List Char} (h : encode cs <+: encode ds) : cs <+: ds := by
  obtain ⟨rest,hrest⟩ := h
  refine List.isPrefix_of_utf8Encode_append_eq_utf8Encode rest.toByteArray ?_
  have bytes := congrArg List.toByteArray hrest
  rw [List.toByteArray_append] at bytes
  exact bytes

/-- A byte below 128 stands only for the character of that number. -/
theorem mem_encodeChar_of_lt {n : ℕ} (h : n < 128) {c : Char} :
    UInt8.ofNat n ∈ String.utf8EncodeChar c ↔ c.val.toNat = n := by
  have byte (m : ℕ) : UInt8.ofNat n = UInt8.ofNat m ↔ n = m % 256 := by
    rw [← UInt8.toNat_inj,UInt8.toNat_ofNat',UInt8.toNat_ofNat']
    omega
  unfold String.utf8EncodeChar
  dsimp only
  generalize c.val.toNat = v
  split_ifs <;> simp only [List.mem_cons,List.not_mem_nil,or_false,byte] <;> omega

/-- A newline byte is a newline. -/
theorem newline_mem_encode {cs : List Char} : 10 ∈ encode cs ↔ '\n' ∈ cs := by
  have newline (c : Char) : 10 ∈ String.utf8EncodeChar c ↔ c = '\n' := by
    have h10 : (10 : UInt8) = UInt8.ofNat 10 := rfl
    rw [h10,mem_encodeChar_of_lt (by decide)]
    constructor
    · intro h
      exact Char.ext (UInt32.toNat_inj.mp h)
    · rintro rfl
      rfl
  simp [encode,newline]

/-- The byte of a character below 128 is that character. -/
theorem mem_encode_of_lt {c : Char} (h : c.toNat < 128) {cs : List Char} :
    UInt8.ofNat c.toNat ∈ encode cs ↔ c ∈ cs := by
  have char (d : Char) : UInt8.ofNat c.toNat ∈ String.utf8EncodeChar d ↔ d = c := by
    rw [mem_encodeChar_of_lt h]
    constructor
    · intro hd
      exact Char.ext (UInt32.toNat_inj.mp hd)
    · rintro rfl
      rfl
  simp [encode,char]

end Library.Utf8
