import Mathlib.Data.List.Basic
import Mathlib.Data.UInt

namespace OpenAFS.Lib

inductive ByteOrder where
  | big
  | little
  deriving DecidableEq, Repr

def wordBytes (x : UInt32) : List UInt8 :=
  [.ofNat (x.toNat / 2 ^ 24), .ofNat (x.toNat / 2 ^ 16), .ofNat (x.toNat / 2 ^ 8), .ofNat x.toNat]

def bytesWord : List UInt8 → UInt32
  | [a, b, c, d] => .ofNat (a.toNat * 2 ^ 24 + b.toNat * 2 ^ 16 + c.toNat * 2 ^ 8 + d.toNat)
  | _ => 0

def swapBytes (x : UInt32) : UInt32 := bytesWord (wordBytes x).reverse

namespace ByteOrder

def store : ByteOrder → UInt32 → List UInt8
  | big, x => wordBytes x
  | little, x => (wordBytes x).reverse

def load : ByteOrder → List UInt8 → UInt32
  | big, bytes => bytesWord bytes
  | little, bytes => bytesWord bytes.reverse

def htonl : ByteOrder → UInt32 → UInt32
  | big, x => x
  | little, x => swapBytes x

def ntohl : ByteOrder → UInt32 → UInt32
  | big, x => x
  | little, x => swapBytes x

end ByteOrder

variable (x : UInt32)

@[simp] theorem wordBytes_length : (wordBytes x).length = 4 := rfl

theorem toNat_bytesWord (a b c d : UInt8) :
    (bytesWord [a, b, c, d]).toNat = a.toNat * 2 ^ 24 + b.toNat * 2 ^ 16 + c.toNat * 2 ^ 8 + d.toNat := by
  have ha := a.toNat_lt
  have hb := b.toNat_lt
  have hc := c.toNat_lt
  have hd := d.toNat_lt
  simp only [bytesWord, UInt32.toNat_ofNat']
  omega

theorem bytesWord_wordBytes : bytesWord (wordBytes x) = x := by
  have bound := x.toNat_lt
  apply UInt32.toNat_inj.mp
  simp only [wordBytes, toNat_bytesWord, UInt8.toNat_ofNat']
  omega

theorem wordBytes_bytesWord (a b c d : UInt8) : wordBytes (bytesWord [a, b, c, d]) = [a, b, c, d] := by
  have ha := a.toNat_lt
  have hb := b.toNat_lt
  have hc := c.toNat_lt
  have hd := d.toNat_lt
  simp only [wordBytes, toNat_bytesWord, List.cons.injEq, and_true]
  refine ⟨?_, ?_, ?_, ?_⟩ <;> apply UInt8.toNat_inj.mp <;> simp only [UInt8.toNat_ofNat'] <;> omega

theorem wordBytes_swapBytes : wordBytes (swapBytes x) = (wordBytes x).reverse := by
  exact wordBytes_bytesWord ..

theorem store_htonl (o : ByteOrder) (x : UInt32) : o.store (o.htonl x) = wordBytes x := by
  cases o with
  | big => rfl
  | little => simp only [ByteOrder.store, ByteOrder.htonl, wordBytes_swapBytes, List.reverse_reverse]

theorem load_big : ByteOrder.big.load (wordBytes x) = x := bytesWord_wordBytes x

end OpenAFS.Lib
