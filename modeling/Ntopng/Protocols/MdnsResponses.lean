/-
  Ntopng.Protocols.MdnsResponses — the responses that devices send, and what is to be seen of
  them in the output of `_dissectMDNS` (src/NetworkDiscovery.cpp).

  A response (`Response`) has a header, questions, PTR and TXT answers in any order, and
  whatever follows them. A name is written with labels and pointers to earlier places: it ends
  with a NUL, or with a pointer to the place where the rest of it is written (`WireName`).
  `Response.WellFormed` says that the pointers lead there, and that names, labels and texts have
  the lengths they may have.

  `Shows` is the output asked for: the name and the data of every answer, in order, a semicolon
  between one and the next. `Readable` is what the code relies on without a check.
-/

import Ntopng.Protocols.MdnsDissect
import Ntopng.Protocols.MdnsReply

namespace Ntopng.Protocols.MdnsResponses

open Ntopng.Lib.CString Ntopng.Lib.DnsName
open Ntopng.Protocols.MdnsReply (be16)

/-! ## Names -/

inductive WireName where
  | plain (labels : Name)
  /-- Labels, and a pointer to where the rest is. -/
  | pointer (labels : Name) (target : ℕ) (rest : WireName)

namespace WireName

/-- The labels in place. -/
def labels : WireName → Name
  | plain ls => ls
  | pointer ls _ _ => ls

/-- The labels in place behind a pointer. -/
def behind : WireName → Name
  | plain _ => []
  | pointer _ _ rest => rest.labels

def name : WireName → Name
  | plain ls => ls
  | pointer ls _ rest => ls ++ rest.name

/-- What ends the name in place. -/
def ending : WireName → List UInt8
  | plain _ => [0]
  | pointer _ target _ => [UInt8.ofNat (0xC0 + target / 256), UInt8.ofNat (target % 256)]

def bytes (n : WireName) : List UInt8 := wire n.labels ++ n.ending

/-- The pointers of a name at `offset` lead to what they stand for, earlier in the packet. -/
def Placed (buf : Mem) : (offset : ℕ) → WireName → Prop
  | _, plain _ => True
  | offset, pointer ls target rest =>
    target < offset + (wire ls).length ∧ target < 2 ^ 14 ∧ rest.bytes <+: buf.drop target ∧ rest.Placed buf target

/-- Labels have up to 63 bytes and names, as they are written without pointers, up to 255. -/
def Legal (n : WireName) : Prop := (∀ l ∈ n.name, 1 ≤ l.length ∧ l.length ≤ 63) ∧ (wire n.name).length < 255

end WireName

/-! ## Responses -/

structure Question where
  name : WireName
  qtype : UInt16
  qclass : UInt16

def Question.bytes (q : Question) : List UInt8 := q.name.bytes ++ (be16 q.qtype ++ be16 q.qclass)

inductive Data where
  | ptr (name : WireName)
  | txt (strings : List (List UInt8))

namespace Data

def type : Data → UInt16
  | ptr _ => 12
  | txt _ => 16

def bytes : Data → List UInt8
  | ptr n => n.bytes
  | txt ss => wire ss

/-- What is printed of it: the name, or the strings with semicolons between them. -/
def text : Data → List UInt8
  | ptr n => joined n.name
  | txt ss => List.intercalate [ch ';'] ss

def Legal (buf : Mem) (offset : ℕ) : Data → Prop
  | ptr n => n.Legal ∧ n.Placed buf offset
  | txt ss => ss ≠ [] ∧ (∀ s ∈ ss, s.length ≤ 255) ∧ (wire ss).length < 2 ^ 16

end Data

structure Answer where
  name : WireName
  rrClass : UInt16
  ttlHigh : UInt16
  ttlLow : UInt16
  data : Data

namespace Answer

/-- Type, class, time to live and the length of the data. -/
def fixed (a : Answer) : List UInt8 :=
  be16 a.data.type ++ be16 a.rrClass ++ be16 a.ttlHigh ++ be16 a.ttlLow ++ be16 (UInt16.ofNat a.data.bytes.length)

def bytes (a : Answer) : List UInt8 := a.name.bytes ++ (a.fixed ++ a.data.bytes)

end Answer

def QuestionsLegal (buf : Mem) : (offset : ℕ) → List Question → Prop
  | _, [] => True
  | offset, q :: qs => q.name.Legal ∧ q.name.Placed buf offset ∧ QuestionsLegal buf (offset + q.bytes.length) qs

def AnswersLegal (buf : Mem) : (offset : ℕ) → List Answer → Prop
  | _, [] => True
  | offset, a :: as =>
    a.name.Legal ∧ a.name.Placed buf offset ∧ a.data.Legal buf (offset + a.name.bytes.length + 10) ∧
      AnswersLegal buf (offset + a.bytes.length) as

structure Response where
  id : UInt16
  flags : UInt16
  authorityRrs : UInt16
  additionalRrs : UInt16
  questions : List Question
  answers : List Answer
  more : List UInt8

namespace Response

variable (r : Response)

def header : List UInt8 :=
  be16 r.id ++ be16 r.flags ++ be16 (UInt16.ofNat r.questions.length) ++ be16 (UInt16.ofNat r.answers.length) ++
    be16 r.authorityRrs ++ be16 r.additionalRrs

/-- Behind the header. -/
def body : List UInt8 := r.questions.flatMap Question.bytes ++ (r.answers.flatMap Answer.bytes ++ r.more)

def bytes : List UInt8 := r.header ++ r.body

structure WellFormed : Prop where
  counts : r.questions.length < 2 ^ 16 ∧ r.answers.length < 2 ^ 16
  questions : QuestionsLegal r.bytes 12 r.questions
  answers : AnswersLegal r.bytes (12 + (r.questions.flatMap Question.bytes).length) r.answers

/-- Name and data of every answer. -/
def pieces : List (List UInt8 × List UInt8) := r.answers.map fun a => (joined a.name.name, a.data.text)

/-- Every text fits into the work buffer, with what follows it; names always do. -/
def Fits : Prop := ∀ a ∈ r.answers, ∀ ss, a.data = .txt ss → a.data.text.length + 1 < MdnsDissect.rspLen

end Response

/-- The pieces are in the text, in order, with a semicolon between one and the next. -/
def Shows (text : List UInt8) : List (List UInt8 × List UInt8) → Prop
  | [] => True
  | [a] => ∃ s t, text = s ++ (a.1 ++ ch ';' :: (a.2 ++ t))
  | a :: b :: l => ∃ s t, text = s ++ (a.1 ++ ch ';' :: (a.2 ++ ch ';' :: t)) ∧ Shows t (b :: l)

/-! ## What the code relies on -/

/-- A byte that is copied from a name and ends nothing. -/
def Passes (c : UInt8) : Prop := c ≠ 0 ∧ c ≠ 0xC0

/-- A byte that is copied as it is. -/
def Clear (c : UInt8) : Prop := 32 ≤ c ∧ c ≠ 0xC0

namespace WireName

/-- Any pointer has its place in one byte. -/
def Near : WireName → Prop
  | plain _ => True
  | pointer _ target _ => target < 256

/-- There is at most one pointer that is followed: the one behind it goes back and ends the copy. -/
def Skipped : WireName → Prop
  | plain _ => True
  | pointer _ target rest => target < 256 ∧ rest.Near

/-- Behind a pointer that ends the copy there is nothing more of the name. -/
def Last : WireName → Prop
  | plain _ => True
  | pointer _ target rest => target < 256 ∧ rest.name = []

/-- There is at most one pointer to something. -/
def Direct : WireName → Prop
  | plain _ => True
  | pointer _ target rest => target < 256 ∧ rest.Last

/-- Lengths behind the first label come out as dots. -/
structure Spelled (n : WireName) : Prop where
  direct : n.Direct
  clear : ∀ l ∈ n.name, ∀ c ∈ l, Clear c
  dots : ∀ l ∈ n.name.tail, l.length < 32 ∨ l.length = 46

end WireName

/-- Behind a pointer the high byte of the type ends the name; the low byte of the class is taken for the first
    byte of what follows. -/
structure Question.Skipped (q : Question) : Prop where
  direct : q.name.Skipped
  passes : ∀ l ∈ q.name.labels ++ q.name.behind, ∀ c ∈ l, Passes c
  qtype : q.name.ending = [0] ∨ q.qtype.toNat < 256
  qclass : Passes q.qclass.toUInt8

/-- `final` is an answer that the packet ends with, `alone` the only one. Of the root name nothing is to be shown. -/
def Data.Readable (alone final : Prop) : Data → Prop
  | .ptr n => n.Spelled ∧ n.labels ≠ [] ∨ alone ∧ n.name = []
  | .txt ss => (∀ s ∈ ss, 0 ∉ s) ∧ (final → ss.getLast? = some [])

def AnswersReadable (alone : Prop) (more : List UInt8) : List Answer → Prop
  | [] => True
  | a :: as => a.name.Spelled ∧ a.data.Readable alone (as = [] ∧ more = []) ∧ AnswersReadable alone more as

/-- A question for the root name: the high byte of its type is taken for the end of the name. -/
def Question.Root (q : Question) : Prop := q.name.bytes = [0] ∧ q.qtype.toNat < 256

namespace Response

variable (r : Response)

/-- The length of the first label behind the header is not looked at; it may be missing in a question. If that is the
    only one, the first answer is met at its name, and a root name would not be seen. -/
def FirstReadable : Prop :=
  match r.questions with
  | [] => ∀ a ∈ r.answers.head?, a.name.labels ≠ []
  | q :: qs => q.name.labels ≠ [] ∧ q.Skipped ∨ q.Root ∧ (qs = [] → ∀ a ∈ r.answers.head?, a.name.name ≠ [])

/-- Without answers nothing is read. -/
structure Readable : Prop where
  first : r.answers ≠ [] → r.FirstReadable
  questions : r.answers ≠ [] → ∀ q ∈ r.questions.tail, q.Skipped
  answers : AnswersReadable (r.answers.length = 1) r.more r.answers

end Response

end Ntopng.Protocols.MdnsResponses
