/-
  Ntopng.Protocols.DhcpOptions — the host name in a DHCP packet
  (src/NetworkInterface.cpp, the option walk of processPacket).

  The walk takes every entry of the options, from byte 240 of the payload on, as a type,
  a length and as many bytes of value. PAD and END have no length. Each host name (option
  12) is stored for the client's MAC, whose bytes are at 28. A read beyond the payload is
  `none`.

  Proved, for every payload: the walk ends and reads nothing but the payload
  (`walk_isSome`). For every field of options that is well formed, let the walk stop at
  the first PAD or option without value; it does, unless the byte after a PAD, taken as a
  length, leads on into the payload (`Astray`). Then the names stored are those of the
  options exactly if no host name stands behind that place, and no name has a zero byte in
  what is kept of it (`dhcp_law`).
-/

import Mathlib

namespace Ntopng.Protocols.DhcpOptions

/-! ## The walk -/

/-- What is stored: the MAC, and the name as a C string. -/
structure HostName where
  clientMac : List UInt8
  name : List UInt8
  deriving DecidableEq, Repr

def bytesAt (payload : List UInt8) : ℕ → ℕ → Option (List UInt8)
  | _, 0 => some []
  | i, n + 1 => payload[i]?.bind fun c => (bytesAt payload (i + 1) n).map (c :: ·)

/-- `strncpy` of `n` bytes: it reads no further than a zero byte. -/
def strncpy (payload : List UInt8) : ℕ → ℕ → Option (List UInt8)
  | _, 0 => some []
  | i, n + 1 => payload[i]?.bind fun c => if c = 0 then some [] else (strncpy payload (i + 1) n).map (c :: ·)

/-- `name[64]`, its last byte a zero. -/
def nameSize : ℕ := 64

def hostName (payload : List UInt8) (i : ℕ) (len : UInt8) : Option HostName :=
  (strncpy payload (i + 2) (min len.toNat (nameSize - 1))).bind fun name =>
    (bytesAt payload 28 6).map fun clientMac => ⟨clientMac, name⟩

/-- The names that are stored from `i` on. -/
def walk (payload : List UInt8) (i : ℕ) : Option (List HostName) :=
  if i + 1 < payload.length then
    payload[i]?.bind fun id =>
      payload[i + 1]?.bind fun len =>
        if len = 0 then some []
        else if i + 2 + len.toNat < payload.length then
          if id = 12 then (hostName payload i len).bind fun n => (walk payload (i + (len.toNat + 2))).map (n :: ·)
          else if id = 0xFF then some []
          else walk payload (i + (len.toNat + 2))
        else some []
  else some []
termination_by payload.length - i

def names (payload : List UInt8) : Option (List HostName) := walk payload 240

/-! ## Well-formed options -/

structure Opt where
  code : UInt8
  value : List UInt8
  notPad : code ≠ 0
  notEnd : code ≠ 0xFF
  short : value.length ≤ 255
  deriving DecidableEq

inductive Item where
  | pad
  | opt (o : Opt)
  deriving DecidableEq

def Opt.bytes (o : Opt) : List UInt8 := o.code :: UInt8.ofNat o.value.length :: o.value

def Item.bytes : Item → List UInt8
  | .pad => [0]
  | .opt o => o.bytes

/-- A payload whose options are well formed. What follows their end may be anything. -/
structure Field where
  header : List UInt8
  header_length : header.length = 240
  items : List Item
  rest : List UInt8

def Field.bytes (x : Field) : List UInt8 := x.header ++ (x.items.flatMap Item.bytes ++ 0xFF :: x.rest)

def Field.clientMac (x : Field) : List UInt8 := (x.header.drop 28).take 6

/-- The value of a host name option. -/
def Item.hostName : Item → Option (List UInt8)
  | .pad => none
  | .opt o => if o.code = 12 then some o.value else none

def Field.expected (x : Field) : List HostName :=
  (x.items.filterMap Item.hostName).map fun v => ⟨x.clientMac, v.take (nameSize - 1)⟩

/-- An option with a value. -/
def Item.plain : Item → Bool
  | .pad => false
  | .opt o => !o.value.isEmpty

/-- Where the walk meets the first item that is not plain, or the end. -/
def Field.stop (x : Field) : ℕ := 240 + ((x.items.takeWhile Item.plain).flatMap Item.bytes).length

/-- There is a PAD, and the byte after it leads on. -/
def Field.Astray (x : Field) : Prop :=
  x.bytes[x.stop]? = some 0 ∧ ∃ b, x.bytes[x.stop + 1]? = some b ∧ b ≠ 0 ∧ x.stop + 2 + b.toNat < x.bytes.length

structure Field.Ok (x : Field) : Prop where
  /-- No host name stands behind the first item that is not plain, nor is it one. -/
  before : ∀ a ∈ x.items.dropWhile Item.plain, a.hostName = none
  noZero : ∀ v ∈ (x.items.takeWhile Item.plain).filterMap Item.hostName, 0 ∉ v.take (nameSize - 1)

/-! ## Reads -/

variable {payload : List UInt8} {i n : ℕ}

theorem bytesAt_eq (h : i + n ≤ payload.length) : bytesAt payload i n = some ((payload.drop i).take n) := by
  induction n generalizing i with
  | zero => rw [bytesAt, List.take_zero]
  | succ n ih =>
    have hi : i < payload.length := by omega
    rw [bytesAt, List.getElem?_eq_getElem hi, Option.bind_some, ih (by omega), List.drop_eq_getElem_cons hi]
    rfl

theorem strncpy_eq (h : i + n ≤ payload.length) :
    strncpy payload i n = some (((payload.drop i).take n).takeWhile (· ≠ 0)) := by
  induction n generalizing i with
  | zero => rw [strncpy, List.take_zero]; rfl
  | succ n ih =>
    have hi : i < payload.length := by omega
    rw [strncpy, List.getElem?_eq_getElem hi, Option.bind_some, ih (by omega), List.drop_eq_getElem_cons hi,
      List.take_succ_cons, List.takeWhile_cons]
    by_cases hzero : payload[i] = 0
    · simp [hzero]
    · simp [hzero]

theorem hostName_eq {len : UInt8} (hmac : 34 ≤ payload.length) (h : i + 2 + len.toNat ≤ payload.length) :
    hostName payload i len = some ⟨(payload.drop 28).take 6,
      ((payload.drop (i + 2)).take (min len.toNat (nameSize - 1))).takeWhile (· ≠ 0)⟩ := by
  rw [hostName, strncpy_eq (by omega), bytesAt_eq (by omega)]
  rfl

/-- The walk ends, and reads nothing but the payload. -/
theorem walk_isSome (h : 34 ≤ i) : (walk payload i).isSome := by
  induction hk : payload.length - i using Nat.strong_induction_on generalizing i with
  | _ k ih =>
    rw [walk]
    by_cases hi : i + 1 < payload.length
    · rw [if_pos hi, List.getElem?_eq_getElem (by omega), Option.bind_some, List.getElem?_eq_getElem hi,
        Option.bind_some]
      split
      · rfl
      · split
        · have hnext := ih (payload.length - (i + (payload[i + 1].toNat + 2))) (by omega)
            (i := i + (payload[i + 1].toNat + 2)) (by omega) rfl
          split
          · rw [hostName_eq (by omega) (by omega), Option.bind_some, Option.isSome_map]
            exact hnext
          · split
            · rfl
            · exact hnext
        · rfl
    · rw [if_neg hi]
      rfl

/-! ## Well-formed options -/

/-- What the walk stores of a host name. -/
def stored (payload v : List UInt8) : HostName :=
  ⟨(payload.drop 28).take 6, (v.take (nameSize - 1)).takeWhile (· ≠ 0)⟩

theorem Opt.length_toNat (o : Opt) : (UInt8.ofNat o.value.length).toNat = o.value.length := by
  rw [UInt8.toNat_ofNat', Nat.mod_eq_of_lt]
  exact Nat.lt_succ_of_le o.short

theorem getElem?_of_drop {more : List UInt8} {c : UInt8} (h : payload.drop i = c :: more) : payload[i]? = some c := by
  have hget := congrArg (fun l => l[0]?) h
  rwa [List.getElem?_drop] at hget

theorem drop_add {l more : List UInt8} (h : payload.drop i = l ++ more) : payload.drop (i + l.length) = more := by
  rw [← List.drop_drop, h, List.drop_left]

/-- An option with a value, and more behind it. -/
theorem walk_plain {o : Opt} {more : List UInt8} (hmac : 34 ≤ payload.length) (hplain : o.value ≠ [])
    (hmore : more ≠ []) (h : payload.drop i = o.bytes ++ more) :
    walk payload i =
      (walk payload (i + o.bytes.length)).map (((Item.opt o).hostName.map (stored payload)).toList ++ ·) := by
  have hlen := o.length_toNat
  have hvalue : 0 < o.value.length := List.length_pos_iff.mpr hplain
  have hpos : 0 < more.length := List.length_pos_iff.mpr hmore
  have hsize := congrArg List.length h
  rw [List.length_drop, List.length_append, Opt.bytes, List.length_cons, List.length_cons] at hsize
  have hid : payload[i]? = some o.code := getElem?_of_drop h
  have hsecond : payload.drop (i + 1) = UInt8.ofNat o.value.length :: (o.value ++ more) :=
    drop_add (l := [o.code]) h
  have hthird : payload.drop (i + 2) = o.value ++ more := drop_add (l := [o.code, UInt8.ofNat o.value.length]) h
  have hnonzero : UInt8.ofNat o.value.length ≠ 0 := fun hzero => by
    rw [hzero] at hlen
    exact absurd hlen.symm (ne_of_gt hvalue)
  have hnext : i + ((UInt8.ofNat o.value.length).toNat + 2) = i + o.bytes.length := by
    rw [hlen, Opt.bytes, List.length_cons, List.length_cons]
  rw [walk, if_pos (by omega), hid, Option.bind_some, getElem?_of_drop hsecond, Option.bind_some, if_neg hnonzero,
    if_pos (by omega), hnext, Item.hostName]
  by_cases hname : o.code = 12
  · have htake : (payload.drop (i + 2)).take (min (UInt8.ofNat o.value.length).toNat (nameSize - 1)) =
        o.value.take (nameSize - 1) := by
      rw [hthird, hlen, List.take_append_of_le_length (min_le_left ..), ← List.take_take,
        List.take_of_length_le (List.length_take_le' ..)]
    rw [if_pos hname, if_pos hname, hostName_eq hmac (by omega), Option.bind_some, htake]
    rfl
  · rw [if_neg hname, if_neg hname, if_neg o.notEnd, Option.map_none, Option.toList_none]
    simp only [List.nil_append, Option.map_id']

theorem walk_synced {items : List Item} {more : List UInt8} (hmac : 34 ≤ payload.length)
    (hplain : ∀ a ∈ items, a.plain = true) (hmore : more ≠ [])
    (h : payload.drop i = items.flatMap Item.bytes ++ more) : walk payload i =
      (walk payload (i + (items.flatMap Item.bytes).length)).map
        ((items.filterMap Item.hostName).map (stored payload) ++ ·) := by
  induction items generalizing i with
  | nil => simp
  | cons a items ih =>
    cases a with
    | pad => exact absurd (hplain .pad (List.mem_cons_self ..)) Bool.false_ne_true
    | opt o =>
      have ho : o.value ≠ [] := by simpa [Item.plain] using hplain (.opt o) (List.mem_cons_self ..)
      rw [List.flatMap_cons, List.append_assoc] at h
      have hrest : items.flatMap Item.bytes ++ more ≠ [] := List.append_ne_nil_of_right_ne_nil _ hmore
      have hnext : payload.drop (i + o.bytes.length) = items.flatMap Item.bytes ++ more := drop_add h
      rw [walk_plain hmac ho hrest h, ih (fun a ha => hplain a (List.mem_cons_of_mem _ ha)) hnext, Option.map_map,
        List.flatMap_cons, List.length_append, Nat.add_assoc]
      refine congrArg (fun f => Option.map f _) (funext fun l => ?_)
      rw [Function.comp_apply, ← List.append_assoc, List.filterMap_cons]
      cases (Item.opt o).hostName with
      | none => rfl
      | some v => rfl

namespace Field

variable {x : Field}

theorem bytes_length (x : Field) : x.bytes.length = 240 + (x.items.flatMap Item.bytes ++ 0xFF :: x.rest).length := by
  rw [bytes, List.length_append, x.header_length]

theorem drop_header (x : Field) : x.bytes.drop 240 = x.items.flatMap Item.bytes ++ 0xFF :: x.rest := by
  rw [bytes, List.drop_left' x.header_length]

theorem split (x : Field) : x.bytes.drop 240 = (x.items.takeWhile Item.plain).flatMap Item.bytes ++
    ((x.items.dropWhile Item.plain).flatMap Item.bytes ++ 0xFF :: x.rest) := by
  rw [drop_header, ← List.append_assoc, ← List.flatMap_append, List.takeWhile_append_dropWhile]

theorem drop_stop (x : Field) :
    x.bytes.drop x.stop = (x.items.dropWhile Item.plain).flatMap Item.bytes ++ 0xFF :: x.rest :=
  drop_add x.split

theorem mac_inside (x : Field) : 34 ≤ x.bytes.length := by
  rw [bytes_length]
  omega

theorem clientMac_eq (x : Field) : (x.bytes.drop 28).take 6 = x.clientMac := by
  rw [clientMac, bytes, List.drop_append_of_le_length (by rw [x.header_length]; omega),
    List.take_append_of_le_length (by rw [List.length_drop, x.header_length]; omega)]

/-- There is a PAD, the end, or an option without value. -/
theorem stop_byte (x : Field) :
    x.bytes[x.stop]? = some 0 ∨ x.bytes[x.stop]? = some 0xFF ∨ x.bytes[x.stop + 1]? = some 0 := by
  have hdrop := x.drop_stop
  rcases hitems : x.items.dropWhile Item.plain with _ | ⟨a, items⟩
  · rw [hitems] at hdrop
    exact Or.inr (Or.inl (getElem?_of_drop hdrop))
  · rw [hitems] at hdrop
    cases a with
    | pad => exact Or.inl (getElem?_of_drop hdrop)
    | opt o =>
      have hnot : (Item.opt o).plain = false := by
        have hhead := List.head?_dropWhile_not Item.plain x.items
        rw [hitems] at hhead
        simpa using hhead
      have hempty : o.value = [] := by simpa [Item.plain] using hnot
      have hbytes : x.bytes.drop x.stop = [o.code] ++ 0 :: (items.flatMap Item.bytes ++ 0xFF :: x.rest) := by
        rw [hdrop, List.flatMap_cons, Item.bytes, Opt.bytes, hempty]
        rfl
      exact Or.inr (Or.inr (getElem?_of_drop (drop_add hbytes)))

/-- The walk stops at the first item that is not plain. -/
theorem walk_stop (h : ¬ x.Astray) : walk x.bytes x.stop = some [] := by
  rw [walk]
  by_cases hi : x.stop + 1 < x.bytes.length
  · have hfirst : x.bytes[x.stop]? = some x.bytes[x.stop] := List.getElem?_eq_getElem (by omega)
    have hsecond : x.bytes[x.stop + 1]? = some x.bytes[x.stop + 1] := List.getElem?_eq_getElem hi
    rw [if_pos hi, hfirst, Option.bind_some, hsecond, Option.bind_some]
    by_cases hzero : x.bytes[x.stop + 1] = 0
    · rw [if_pos hzero]
    · rw [if_neg hzero]
      by_cases hinside : x.stop + 2 + x.bytes[x.stop + 1].toNat < x.bytes.length
      · rw [if_pos hinside]
        rcases x.stop_byte with hpad | hend | hempty
        · exact absurd ⟨hpad, _, hsecond, hzero, hinside⟩ h
        · rw [hfirst, Option.some.injEq] at hend
          rw [hend]
          rfl
        · rw [hsecond, Option.some.injEq] at hempty
          exact absurd hempty hzero
      · rw [if_neg hinside]
  · rw [if_neg hi]

theorem names_eq (h : ¬ x.Astray) :
    names x.bytes = some (((x.items.takeWhile Item.plain).filterMap Item.hostName).map (stored x.bytes)) := by
  have hmore : (x.items.dropWhile Item.plain).flatMap Item.bytes ++ 0xFF :: x.rest ≠ [] :=
    List.append_ne_nil_of_right_ne_nil _ (List.cons_ne_nil _ _)
  have hplain : ∀ a ∈ x.items.takeWhile Item.plain, a.plain = true := fun a ha => List.mem_takeWhile_imp ha
  rw [names, walk_synced x.mac_inside hplain hmore x.split, ← stop, walk_stop h, Option.map_some, List.append_nil]

theorem takeWhile_self_iff (l : List UInt8) : l.takeWhile (· ≠ 0) = l ↔ 0 ∉ l := by
  rw [List.takeWhile_eq_self_iff]
  constructor
  · intro h hzero
    simpa using h 0 hzero
  · intro h c hc
    exact decide_eq_true fun hzero => h (hzero ▸ hc)

theorem stored_eq_iff (x : Field) (v : List UInt8) :
    stored x.bytes v = ⟨x.clientMac, v.take (nameSize - 1)⟩ ↔ 0 ∉ v.take (nameSize - 1) := by
  rw [stored, clientMac_eq, HostName.mk.injEq, takeWhile_self_iff]
  exact and_iff_right rfl

theorem names_iff (h : ¬ x.Astray) : names x.bytes = some x.expected ↔ x.Ok := by
  have hsplit : x.items.filterMap Item.hostName = (x.items.takeWhile Item.plain).filterMap Item.hostName ++
      (x.items.dropWhile Item.plain).filterMap Item.hostName := by
    rw [← List.filterMap_append, List.takeWhile_append_dropWhile]
  rw [names_eq h, Option.some.injEq, expected, hsplit]
  constructor
  · intro heq
    have hlength := congrArg List.length heq
    rw [List.length_map, List.length_map, List.length_append] at hlength
    have hnil : (x.items.dropWhile Item.plain).filterMap Item.hostName = [] := List.length_eq_zero_iff.mp (by omega)
    rw [hnil, List.append_nil] at heq
    exact ⟨List.filterMap_eq_nil_iff.mp hnil, fun v hv => (x.stored_eq_iff v).mp (List.map_inj_left.mp heq v hv)⟩
  · intro hok
    rw [List.filterMap_eq_nil_iff.mpr hok.before, List.append_nil]
    exact List.map_inj_left.mpr fun v hv => (x.stored_eq_iff v).mpr (hok.noZero v hv)

end Field

/-- The walk is safe on every payload. On well-formed options where it does not go astray, it stores the host names
    exactly under `Ok`. -/
theorem dhcp_law (payload : List UInt8) : (names payload).isSome ∧
    ∀ x : Field, payload = x.bytes → ¬ x.Astray → (names payload = some x.expected ↔ x.Ok) := by
  refine ⟨walk_isSome (by omega), ?_⟩
  rintro x rfl h
  exact x.names_iff h

/-- A message type, then a host name. -/
def askingField : Field where
  header := List.replicate 240 0
  header_length := by rw [List.length_replicate]
  items := [.opt ⟨53, [3], by decide, by decide, by decide⟩, .opt ⟨12, [0x70, 0x63], by decide, by decide, by decide⟩]
  rest := []

theorem dhcp_law_asking : (names askingField.bytes).isSome ∧
    names askingField.bytes = some [⟨List.replicate 6 0, [0x70, 0x63]⟩] := by
  obtain ⟨hsafe, hlaw⟩ := dhcp_law askingField.bytes
  refine ⟨hsafe, (hlaw askingField rfl ?_).mpr ⟨by decide, by decide⟩⟩
  intro hastray
  exact absurd hastray.1 (by decide)

/-- A PAD before the host name. -/
def paddedField : Field where
  header := List.replicate 240 0
  header_length := by rw [List.length_replicate]
  items := [.pad, .opt ⟨12, [0x70, 0x63], by decide, by decide, by decide⟩]
  rest := []

/-- The code of the host name is taken for the length of the PAD, and leads out of the payload. -/
theorem name_after_pad : ¬ ∀ x : Field, names x.bytes = some x.expected := by
  intro hall
  have hname : ¬ paddedField.Ok := fun hok => absurd hok.before (by decide)
  refine hname ((Field.names_iff ?_).mp (hall paddedField))
  rintro ⟨_, b, hb, _, hlt⟩
  have hcode : paddedField.bytes[paddedField.stop + 1]? = some 12 := by decide
  have hstop : paddedField.stop = 240 := by decide
  have hlength : paddedField.bytes.length = 246 := by
    rw [Field.bytes_length]
    decide
  rw [hcode, Option.some.injEq] at hb
  rw [← hb, hstop, hlength] at hlt
  exact absurd hlt (by decide)

end Ntopng.Protocols.DhcpOptions
