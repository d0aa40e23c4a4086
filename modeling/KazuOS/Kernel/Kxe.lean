import KazuOS.Lib.Bytes

/-! The executable format: what the build writes, and what the kernel accepts. -/
namespace KazuOS.Kernel

open KazuOS.Lib

def kxeMagic : List UInt8 := [75, 88, 69, 0]
def kxeHeaderSize : Nat := 36
def kxeFlagDriver : BitVec 32 := 1
def userBase : BitVec 64 := 0x8000000000

structure KxeImage where
  entry : BitVec 64
  code : List UInt8
  flags : BitVec 32
  deriving DecidableEq, Repr

/-- A number of the header. -/
def headerField (image : List UInt8) (offset width : Nat) : Nat :=
  ofLeBytes ((image.drop offset).take width)

/-- The entry of the header is an offset, and the sum wraps. -/
def parseKxe (image : List UInt8) : Option KxeImage :=
  if image.length < kxeHeaderSize then none else
    if image.take 4 ≠ kxeMagic then none else
      let codeOffset := headerField image 12 8
      let stop := codeOffset + headerField image 20 8
      if 2 ^ 64 ≤ stop ∨ codeOffset < kxeHeaderSize ∨ image.length < stop then none else
        some {
          entry := userBase + BitVec.ofNat 64 (headerField image 4 8)
          code := (image.drop codeOffset).take (stop - codeOffset)
          flags := BitVec.ofNat 32 (headerField image 28 4) }

def buildKxe (code : List UInt8) (entry : BitVec 64) (flags : BitVec 32) : List UInt8 :=
  kxeMagic ++ leBytes 8 entry.toNat ++ leBytes 8 kxeHeaderSize ++ leBytes 8 code.length ++
    leBytes 4 flags.toNat ++ leBytes 4 0 ++ code

theorem headerField_of_parts {image : List UInt8} {width value offset : Nat}
    (before after : List UInt8) (himage : image = before ++ (leBytes width value ++ after))
    (hoffset : before.length = offset) (hvalue : value < 256 ^ width) :
    headerField image offset width = value := by
  have htake : (leBytes width value ++ after).take width = leBytes width value :=
    List.take_left' (length_leBytes width value)
  rw [headerField, himage, ← hoffset, List.drop_left, htake, ofLeBytes_leBytes hvalue]

/-- What the build writes is accepted, with its code. -/
theorem parseKxe_buildKxe {code : List UInt8} (hlength : code.length + kxeHeaderSize < 2 ^ 64)
    (entry : BitVec 64) (flags : BitVec 32) :
    parseKxe (buildKxe code entry flags) = some ⟨userBase + entry, code, flags⟩ := by
  have hheader : kxeHeaderSize = 36 := rfl
  let front := kxeMagic ++ leBytes 8 entry.toNat ++ leBytes 8 kxeHeaderSize
  let back := leBytes 4 flags.toNat ++ leBytes 4 0 ++ code
  have hsize : (buildKxe code entry flags).length = kxeHeaderSize + code.length := by
    simp only [buildKxe, List.length_append, length_leBytes]
    rfl
  have hentry : headerField (buildKxe code entry flags) 4 8 = entry.toNat :=
    headerField_of_parts kxeMagic (leBytes 8 kxeHeaderSize ++ (leBytes 8 code.length ++ back))
      (by simp only [buildKxe, back, List.append_assoc]) rfl entry.isLt
  have hoffset : headerField (buildKxe code entry flags) 12 8 = kxeHeaderSize :=
    headerField_of_parts (kxeMagic ++ leBytes 8 entry.toNat) (leBytes 8 code.length ++ back)
      (by simp only [buildKxe, back, List.append_assoc]) rfl (by decide)
  have hcount : headerField (buildKxe code entry flags) 20 8 = code.length :=
    headerField_of_parts front back
      (by simp only [buildKxe, front, back, List.append_assoc]) rfl (by omega)
  have hflags : headerField (buildKxe code entry flags) 28 4 = flags.toNat :=
    headerField_of_parts (front ++ leBytes 8 code.length) (leBytes 4 0 ++ code)
      (by simp only [buildKxe, front, List.append_assoc]) rfl flags.isLt
  have hmagic : (buildKxe code entry flags).take 4 = kxeMagic := by
    simp only [buildKxe, List.append_assoc]
    exact List.take_left' rfl
  have hcode : (buildKxe code entry flags).drop kxeHeaderSize = code := List.drop_left' rfl
  unfold parseKxe
  simp only [hsize, hmagic, hentry, hoffset, hcount, hflags, hcode]
  rw [if_neg (by omega), if_neg (by simp), if_neg (by omega), Nat.add_sub_cancel_left,
    List.take_length, BitVec.ofNat_toNat, BitVec.ofNat_toNat, BitVec.setWidth_eq,
    BitVec.setWidth_eq]

end KazuOS.Kernel
