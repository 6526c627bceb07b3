import Mathlib.Data.List.Nodup
import Mathlib.Data.UInt

namespace OpenAFS.Ptserver

def IsInt (n : Int) : Prop := -2 ^ 31 ≤ n ∧ n < 2 ^ 31

instance (n : Int) : Decidable (IsInt n) := by unfold IsInt; infer_instance

instance neZero_page : NeZero 256 := ⟨by decide⟩

/-- `NUMBERTOBIT`, `NUMBERTOINDEX` and `NUMBERTOPAGE`. -/
def numberToBit (n : Int) : Nat := (n % 32).toNat
def numberToIndex (n : Int) : Fin 256 := ⟨(n / 32 % 256).toNat, by omega⟩
def numberToPage (n : Int) : Int := n / 8192

structure Bitmap where
  page : Int
  data : Fin 256 → BitVec 32

structure Map where
  neg : Bool
  pages : List Bitmap

def nilMap : Map := ⟨false, []⟩

def Bitmap.bit (p : Bitmap) (n : Int) : Bool := p.data (numberToIndex n) &&& 1#32 <<< numberToBit n ≠ 0

def inMap (parm : Map) (node : Int) : Bool :=
  match parm.pages.find? (·.page = numberToPage node) with
  | some map => parm.neg ^^ map.bit node
  | none => parm.neg

def Bitmap.add (neg : Bool) (node : Int) (p : Bitmap) : Bitmap :=
  let bit := 1#32 <<< numberToBit node
  let x := numberToIndex node
  { p with data := Function.update p.data x (if neg then p.data x &&& ~~~bit else p.data x ||| bit) }

def changePage (page : Int) (f : Bitmap → Bitmap) : List Bitmap → List Bitmap
  | [] => []
  | p :: rest => if p.page = page then f p :: rest else p :: changePage page f rest

def newPage (neg : Bool) (page : Int) : Bitmap := ⟨page, fun _ => if neg then BitVec.allOnes 32 else 0⟩

def addMap (parm : Map) (node : Int) : Map :=
  let page := numberToPage node
  let pages := if parm.pages.any (·.page = page) then parm.pages else newPage parm.neg page :: parm.pages
  { parm with pages := changePage page (Bitmap.add parm.neg node) pages }

def Bitmap.sig (p : Bitmap) : Bool := ∃ i, p.data i ≠ 0

def simplifyBitmap (pages : List Bitmap) : List Bitmap := pages.filter Bitmap.sig

def takePage (page : Int) : List Bitmap → Option (Bitmap × List Bitmap)
  | [] => none
  | r :: rest => if r.page = page then some (r, rest) else (takePage page rest).map fun (q, rest) => (q, r :: rest)

def orPages : List Bitmap → List Bitmap → List Bitmap × List Bitmap
  | [], right => ([], right)
  | l :: left, right =>
    match takePage l.page right with
    | some (r, right) =>
      let (left, right) := orPages left right
      ({ l with data := fun i => l.data i ||| r.data i } :: left, right)
    | none =>
      let (left, right) := orPages left right
      (l :: left, right)

def orBitmap (left right : List Bitmap) : List Bitmap :=
  let (left, right) := orPages left right
  left ++ right

def andPages : List Bitmap → List Bitmap → List Bitmap
  | [], _ => []
  | l :: left, right =>
    match takePage l.page right with
    | some (r, right) =>
      let l := { l with data := fun i => l.data i &&& r.data i }
      if l.sig then l :: andPages left right else andPages left right
    | none => andPages left right

def andBitmap (left right : List Bitmap) : List Bitmap := simplifyBitmap (andPages left right)

def bicPages : List Bitmap → List Bitmap → List Bitmap
  | [], _ => []
  | l :: left, right =>
    match takePage l.page right with
    | some (r, right) =>
      let l := { l with data := fun i => l.data i &&& ~~~r.data i }
      if l.sig then l :: bicPages left right else bicPages left right
    | none => l :: bicPages left right

def bicBitmap (left right : List Bitmap) : List Bitmap := simplifyBitmap (bicPages left right)

def notMap (map : Map) : Map := { map with neg := !map.neg }

def andMap (mp1 mp2 : Map) : Map :=
  match mp1.neg, mp2.neg with
  | false, false => ⟨false, andBitmap mp1.pages mp2.pages⟩
  | false, true => ⟨false, bicBitmap mp1.pages mp2.pages⟩
  | true, false => ⟨false, bicBitmap mp2.pages mp1.pages⟩
  | true, true => ⟨true, orBitmap mp1.pages mp2.pages⟩

def orMap (mp1 mp2 : Map) : Map :=
  match mp1.neg, mp2.neg with
  | false, false => ⟨false, orBitmap mp1.pages mp2.pages⟩
  | false, true => ⟨true, bicBitmap mp2.pages mp1.pages⟩
  | true, false => ⟨true, bicBitmap mp1.pages mp2.pages⟩
  | true, true => ⟨true, andBitmap mp1.pages mp2.pages⟩

def bicMap (mp1 mp2 : Map) : Map := andMap mp1 (notMap mp2)

def copyPages : List Bitmap → List Bitmap
  | [] => []
  | map :: rest => ⟨map.page, map.data⟩ :: copyPages rest

def copyMap (parm : Map) : Map := ⟨parm.neg, copyPages parm.pages⟩

def increment (node : Int) : Int := if node = 2 ^ 31 - 1 then -2 ^ 31 else node + 1

def Bitmap.firstFrom (p : Bitmap) (i : Fin 256) (mask : BitVec 32) : Option Int :=
  let word (j : Fin 256) : BitVec 32 := p.data j &&& if j = i then mask else BitVec.allOnes 32
  ((List.finRange 256).find? fun j => i ≤ j ∧ word j ≠ 0).map fun j =>
    let bn := (List.range 32).findIdx fun bn => (word j &&& 1#32 <<< bn) ≠ 0
    bn + (j + p.page * 256) * 32

structure Lowest where
  page : Option Int := none
  best : Int := -1

def Lowest.pass (node : Int) (lowest : Lowest) (map : Bitmap) : Lowest :=
  if numberToPage node ≤ map.page ∧ lowest.page.all (map.page < ·) then
    match if numberToPage node = map.page then map.firstFrom (numberToIndex node) (-(1#32 <<< numberToBit node))
      else map.firstFrom 0 (BitVec.allOnes 32) with
    | some best => ⟨some map.page, best⟩
    | none => lowest
  else lowest

def nextMap (parm : Map) (node : Int) : Int :=
  if parm.neg then -1 else (parm.pages.foldl (Lowest.pass (increment node)) {}).best

def firstMap (parm : Map) : Int := nextMap parm (-9999)

/-- The loop `for (b = first_map(m); b >= 0; b = next_map(m, b))` from some `b` on, as far as `fuel` goes. -/
def walkMap (m : Map) : Nat → Int → Option (List Int)
  | 0, _ => none
  | fuel + 1, b => if b < 0 then some [] else (walkMap m fuel (nextMap m b)).map (b :: ·)

end OpenAFS.Ptserver
