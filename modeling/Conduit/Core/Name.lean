import Mathlib.Data.List.DropRight
import Conduit.Core.Transaction

/-!
# Domain names

Names are lists of labels. The code works on the text that `to_utf8` gives: the label texts with
dots between them and one at the end, in which a dot of a label is written `\.`. How a label is
written, and how a name is parsed and emitted are parameters (`NameSyntax`), with what is assumed of
them (`NameSyntax.Lawful`): `from_utf8` inverts `to_utf8` up to ASCII case, and the octets of a name
tell its labels.

- `NameSyntax.normalizeQname`: the octets of a name's text, in lower case.
- `normalizeQname_toUtf8`: these are the octets of the lower-case name, whatever its labels are.
- `NameSyntax.octets`: a lawful syntax.
-/

namespace Conduit

/-! ## Labels and names -/

structure Label where
  octets : List UInt8
  ne_nil : octets ≠ []
  length_le : octets.length ≤ 63
  deriving DecidableEq

/-- The octets of labels on the wire, without those of the root. -/
def labelsWire (labels : List Label) : List UInt8 :=
  labels.flatMap fun l => UInt8.ofNat l.octets.length :: l.octets

/-- A name has at most 255 octets on the wire. -/
structure Name where
  labels : List Label
  isFqdn : Bool := true
  length_le : (labelsWire labels).length + 1 ≤ 255
  deriving DecidableEq

def lowerOctet (b : UInt8) : UInt8 := if 65 ≤ b ∧ b ≤ 90 then b + 32 else b

def Label.lower (l : Label) : Label where
  octets := l.octets.map lowerOctet
  ne_nil := by simpa using l.ne_nil
  length_le := by simpa using l.length_le

theorem length_labelsWire_lower (labels : List Label) :
    (labelsWire (labels.map Label.lower)).length = (labelsWire labels).length := by
  simp [labelsWire, List.length_flatMap, Function.comp_def, Label.lower]

def Name.lower (n : Name) : Name where
  labels := n.labels.map Label.lower
  isFqdn := n.isFqdn
  length_le := by
    rw [length_labelsWire_lower]
    exact n.length_le

/-- The same labels, up to ASCII case. -/
def Name.EqIgnoreCase (n n' : Name) : Prop := n.lower.labels = n'.lower.labels

instance (n n' : Name) : Decidable (n.EqIgnoreCase n') := inferInstanceAs (Decidable (_ = _))

/-! ## Text -/

/-- How labels are written, and names are parsed and emitted. -/
structure NameSyntax where
  labelText : Label → List Char
  fromUtf8 : String → Option Name
  emit : Name → Option (List UInt8)
  length_emit : ∀ n b, emit n = some b → b.length ≤ 255

/-- `to_ascii_lowercase`. -/
def asciiLower (s : List Char) : List Char := s.map Char.toLower

namespace NameSyntax

variable (names : NameSyntax)

/-- The label texts with dots between them. -/
def joined (labels : List Label) : List Char := ['.'].intercalate (labels.map names.labelText)

def text (n : Name) : List Char := names.joined n.labels ++ if n.isFqdn then ['.'] else []

def toUtf8 (n : Name) : String := String.ofList (names.text n)

def normalizeQname (qname : String) : Option (List UInt8) :=
  let lower := asciiLower (qname.toList.rdropWhile (· == '.'))
  let fqdn :=
    if lower.isEmpty then ['.']
    else if qname.toList.getLast? = some '.' then lower ++ ['.']
    else lower
  (names.fromUtf8 (String.ofList fqdn)).bind names.emit

structure Lawful : Prop where
  labelText_ne_nil : ∀ l, names.labelText l ≠ []
  /-- A dot of a label is written behind a backslash. -/
  dot_escaped : ∀ l cs ds, names.labelText l = cs ++ '.' :: ds → ∃ es, cs = es ++ ['\\']
  /-- `from_utf8` inverts `to_utf8`, up to ASCII case. -/
  fromUtf8_lower : ∀ n, names.fromUtf8 (String.ofList (asciiLower (names.text n))) = some n.lower
  emit_isSome : ∀ n, (names.emit n).isSome
  /-- A relative name is emitted like an absolute one. -/
  emit_eq_iff : ∀ n n', names.emit n = names.emit n' ↔ n.labels = n'.labels

variable {names}

theorem joined_cons_cons (l l' : Label) (ls : List Label) :
    names.joined (l :: l' :: ls) = names.labelText l ++ '.' :: names.joined (l' :: ls) := by
  simp [joined, List.intercalate_cons_cons]

theorem joined_concat (names : NameSyntax) {ls : List Label} (h : ls ≠ []) :
    ∃ l ∈ ls, ∃ cs, names.joined ls = cs ++ names.labelText l := by
  induction ls with
  | nil => exact absurd rfl h
  | cons l ls ih =>
    cases ls with
    | nil => exact ⟨l, List.mem_singleton_self l, [], by simp [joined]⟩
    | cons l' ls =>
      obtain ⟨last, hlast, cs, hcs⟩ := ih (by simp)
      refine ⟨last, List.mem_cons_of_mem l hlast, names.labelText l ++ '.' :: cs, ?_⟩
      rw [joined_cons_cons, hcs, List.append_assoc, List.cons_append]

/-- What is left of a text without the dots at its end: all of it, or all but the dot of an escape.
-/
theorem rdropWhile_joined (hnames : names.Lawful) {ls : List Label} (h : ls ≠ []) :
    let rest := (names.joined ls).rdropWhile (· == '.')
    rest ≠ [] ∧ (rest = names.joined ls ∨ rest ++ ['.'] = names.joined ls) := by
  obtain ⟨l, -, cs, hjoined⟩ := names.joined_concat h
  obtain ⟨ds, c, htext⟩ := List.eq_nil_or_concat' (names.labelText l) |>.resolve_left
    (hnames.labelText_ne_nil l)
  rw [hjoined, htext, ← List.append_assoc]
  by_cases hc : c = '.'
  · -- the dot of an escape, with its backslash before it
    subst hc
    obtain ⟨es, rfl⟩ := hnames.dot_escaped l ds [] htext
    rw [List.rdropWhile_concat_pos _ _ _ (by simp), ← List.append_assoc,
      List.rdropWhile_concat_neg _ _ _ (by simp)]
    simp
  · rw [List.rdropWhile_concat_neg _ _ _ (by simpa using hc)]
    simp

/-- The octets of the text of a name are those of the lower-case name. -/
theorem normalizeQname_toUtf8 (hnames : names.Lawful) {n : Name} (hn : n.isFqdn = true) :
    names.normalizeQname (names.toUtf8 n) = names.emit n.lower := by
  obtain ⟨labels, isFqdn, hlen⟩ := n
  subst hn
  have htext : (names.toUtf8 ⟨labels, true, hlen⟩).toList = names.joined labels ++ ['.'] := by
    simp [toUtf8, text]
  -- parsing the text of the name, with the dot at its end or without it
  have hparse : ∀ isFqdn, names.fromUtf8 (String.ofList (asciiLower
      (names.text ⟨labels, isFqdn, hlen⟩))) = some (Name.lower ⟨labels, isFqdn, hlen⟩) :=
    fun isFqdn => hnames.fromUtf8_lower _
  unfold normalizeQname
  rw [htext, List.rdropWhile_concat_pos _ _ _ (by simp)]
  by_cases hlabels : labels = []
  · subst hlabels
    have hroot : names.fromUtf8 (String.ofList ['.']) = _ := hparse true
    simp [joined, asciiLower, hroot]
  · obtain ⟨hne, hrest⟩ := rdropWhile_joined hnames hlabels
    generalize (names.joined labels).rdropWhile (· == '.') = rest at hne hrest ⊢
    have hdot : asciiLower rest ++ ['.'] = asciiLower (rest ++ ['.']) := by simp [asciiLower]
    dsimp only
    rw [if_neg (by simpa [asciiLower] using hne), if_pos (by simp), hdot]
    rcases hrest with rfl | hrest
    · have hfqdn : names.joined labels ++ ['.'] = names.text ⟨labels, true, hlen⟩ := rfl
      rw [hfqdn, hparse true]
      rfl
    · have hrelative : rest ++ ['.'] = names.text ⟨labels, false, hlen⟩ := by simp [text, hrest]
      rw [hrelative, hparse false]
      exact (hnames.emit_eq_iff _ _).mpr rfl

end NameSyntax

/-! ## A syntax -/

/-- The labels and the root. -/
def Name.wire (n : Name) : List UInt8 := labelsWire n.labels ++ [0]

theorem Label.toNat_length (l : Label) : (UInt8.ofNat l.octets.length).toNat = l.octets.length := by
  have h := l.length_le
  rw [UInt8.toNat_ofNat']
  omega

/-- The length octet of a label is not the one of the root. -/
theorem Label.length_ne_zero (l : Label) : UInt8.ofNat l.octets.length ≠ 0 := by
  intro h
  have hlen := l.toNat_length
  rw [h] at hlen
  exact l.ne_nil (List.length_eq_zero_iff.mp hlen.symm)

theorem labelsWire_cons (l : Label) (ls : List Label) :
    labelsWire (l :: ls) = UInt8.ofNat l.octets.length :: (l.octets ++ labelsWire ls) := rfl

theorem labelsWire_inj {ls ls' : List Label}
    (h : labelsWire ls ++ [0] = labelsWire ls' ++ [0]) : ls = ls' := by
  induction ls generalizing ls' with
  | nil =>
    cases ls' with
    | nil => rfl
    | cons l' ls' => exact absurd (List.cons.inj h).1.symm l'.length_ne_zero
  | cons l ls ih =>
    cases ls' with
    | nil => exact absurd (List.cons.inj h).1 l.length_ne_zero
    | cons l' ls' =>
      rw [labelsWire_cons, labelsWire_cons, List.cons_append, List.cons_append, List.append_assoc,
        List.append_assoc] at h
      obtain ⟨hlen, hrest⟩ := List.cons.inj h
      have hlen : l.octets.length = l'.octets.length := by
        rw [← l.toNat_length, hlen, l'.toNat_length]
      obtain ⟨hoctets, hrest⟩ := List.append_inj hrest hlen
      rw [ih hrest]
      congr 1
      cases l
      cases l'
      cases hoctets
      rfl

theorem Name.wire_inj {n n' : Name} (h : n.wire = n'.wire) : n.labels = n'.labels :=
  labelsWire_inj h

namespace OctetSyntax

def char (b : UInt8) : Char := Char.ofNat b.toNat

def octet (c : Char) : UInt8 := UInt8.ofNat c.toNat

/-- An octet is written as the character with its number; dots and backslashes are escaped. -/
def piece (b : UInt8) : List Char := if b = 46 ∨ b = 92 then ['\\', char b] else [char b]

def labelText (l : Label) : List Char := l.octets.flatMap piece

/-- The parts of a text between its dots. -/
def parts : List Char → List UInt8 → List (List UInt8)
  | [], part => [part]
  | '\\' :: c :: cs, part => parts cs (part ++ [octet c])
  | c :: cs, part => if c = '.' then part :: parts cs [] else parts cs (part ++ [octet c])

def label (part : List UInt8) : Option Label :=
  if h : part ≠ [] ∧ part.length ≤ 63 then some ⟨part, h.1, h.2⟩ else none

def name (labels : List Label) (isFqdn : Bool) : Option Name :=
  if h : (labelsWire labels).length + 1 ≤ 255 then some ⟨labels, isFqdn, h⟩ else none

/-- The last part is empty if the text ends with a dot. -/
def fromUtf8 (s : String) : Option Name :=
  if s = "." then name [] true
  else
    let ps := parts s.toList []
    if ps.getLast? = some [] then (ps.dropLast.mapM label).bind (name · (1 < ps.length))
    else (ps.mapM label).bind (name · false)

end OctetSyntax

/-- A syntax for concrete runs. -/
def NameSyntax.octets : NameSyntax where
  labelText := OctetSyntax.labelText
  fromUtf8 := OctetSyntax.fromUtf8
  emit n := some n.wire
  length_emit := by
    rintro n _ ⟨⟩
    rw [Name.wire, List.length_append]
    exact n.length_le

namespace OctetSyntax

theorem forall_octet {P : UInt8 → Prop} (h : ∀ n < 256, P (UInt8.ofNat n)) (b : UInt8) : P b := by
  have hb := h b.toNat b.toNat_lt
  rwa [UInt8.ofNat_toNat] at hb

theorem char_lower (b : UInt8) : (char b).toLower = char (lowerOctet b) :=
  forall_octet (P := fun b => (char b).toLower = char (lowerOctet b)) (by decide +kernel) b

theorem octet_char (b : UInt8) : octet (char b) = b :=
  forall_octet (P := fun b => octet (char b) = b) (by decide +kernel) b

theorem char_ne (b : UInt8) : ¬(b = 46 ∨ b = 92) → char b ≠ '.' ∧ char b ≠ '\\' :=
  forall_octet (P := fun b => ¬(b = 46 ∨ b = 92) → char b ≠ '.' ∧ char b ≠ '\\')
    (by decide +kernel) b

theorem lower_special (b : UInt8) : lowerOctet b = 46 ∨ lowerOctet b = 92 ↔ b = 46 ∨ b = 92 :=
  forall_octet (P := fun b => lowerOctet b = 46 ∨ lowerOctet b = 92 ↔ b = 46 ∨ b = 92)
    (by decide +kernel) b

theorem asciiLower_piece (b : UInt8) : asciiLower (piece b) = piece (lowerOctet b) := by
  unfold piece asciiLower
  by_cases h : b = 46 ∨ b = 92
  · rw [if_pos h, if_pos ((lower_special b).mpr h), List.map_cons, List.map_cons, char_lower]
    rfl
  · rw [if_neg h, if_neg (mt (lower_special b).mp h), List.map_cons, char_lower]
    rfl

theorem asciiLower_labelText (l : Label) : asciiLower (labelText l) = labelText l.lower := by
  rw [labelText, labelText, Label.lower, List.flatMap_map, asciiLower, List.map_flatMap]
  exact List.flatMap_congr fun b _ => asciiLower_piece b

theorem parts_piece (b : UInt8) (cs : List Char) (part : List UInt8) :
    parts (piece b ++ cs) part = parts cs (part ++ [b]) := by
  unfold piece
  by_cases h : b = 46 ∨ b = 92
  · rw [if_pos h]
    show parts cs (part ++ [octet (char b)]) = _
    rw [octet_char]
  · rw [if_neg h]
    obtain ⟨hdot, hslash⟩ := char_ne b h
    rw [List.singleton_append, parts, if_neg hdot, octet_char]
    intro c' cs' hcs
    exact absurd hcs hslash

theorem parts_labelText (bs : List UInt8) (cs : List Char) (part : List UInt8) :
    parts (bs.flatMap piece ++ cs) part = parts cs (part ++ bs) := by
  induction bs generalizing part with
  | nil => simp
  | cons b bs ih =>
    rw [List.flatMap_cons, List.append_assoc, parts_piece, ih, List.append_assoc]
    rfl

theorem parts_dot (cs : List Char) (part : List UInt8) :
    parts ('.' :: cs) part = part :: parts cs [] := rfl

theorem parts_joined {ls : List Label} (h : ls ≠ []) (isFqdn : Bool) :
    parts (['.'].intercalate (ls.map labelText) ++ if isFqdn then ['.'] else []) [] =
      ls.map Label.octets ++ if isFqdn then [[]] else [] := by
  induction ls with
  | nil => exact absurd rfl h
  | cons l ls ih =>
    cases ls with
    | nil =>
      rw [List.map_singleton, List.intercalate_singleton, labelText, parts_labelText]
      cases isFqdn <;> rfl
    | cons l' ls =>
      rw [List.map_cons, List.map_cons, List.intercalate_cons_cons, List.append_assoc,
        List.append_assoc, labelText, parts_labelText, List.singleton_append, parts_dot]
      rw [← List.map_cons, ih (by simp)]
      rfl

theorem mapM_label (ls : List Label) : (ls.map Label.octets).mapM label = some ls := by
  induction ls with
  | nil => rfl
  | cons l ls ih =>
    have hl : label l.octets = some l := dif_pos ⟨l.ne_nil, l.length_le⟩
    rw [List.map_cons, List.mapM_cons, hl, ih]
    rfl

theorem name_labels (n : Name) : name n.labels n.isFqdn = some n := dif_pos n.length_le

theorem labelText_ne_nil (l : Label) : labelText l ≠ [] := by
  obtain ⟨b, bs, hl⟩ := List.exists_cons_of_ne_nil l.ne_nil
  rw [labelText, hl, List.flatMap_cons]
  unfold piece
  split <;> simp

theorem fromUtf8_toUtf8 (n : Name) : fromUtf8 (NameSyntax.octets.toUtf8 n) = some n := by
  obtain ⟨labels, isFqdn, hlen⟩ := n
  by_cases hlabels : labels = []
  · subst hlabels
    cases isFqdn <;> rfl
  have hparts : parts (NameSyntax.octets.toUtf8 ⟨labels, isFqdn, hlen⟩).toList [] =
      labels.map Label.octets ++ if isFqdn then [[]] else [] := by
    rw [NameSyntax.toUtf8, String.toList_ofList]
    exact parts_joined hlabels isFqdn
  have hdot : NameSyntax.octets.toUtf8 ⟨labels, isFqdn, hlen⟩ ≠ "." := by
    intro heq
    obtain ⟨l, ls, rfl⟩ := List.exists_cons_of_ne_nil hlabels
    rw [heq] at hparts
    exact l.ne_nil (List.cons.inj hparts).1.symm
  rw [fromUtf8, if_neg hdot]
  dsimp only
  rw [hparts]
  cases isFqdn with
  | true =>
    have hmany : decide (1 < (labels.map Label.octets ++ [[]]).length) = true := by
      have := List.length_pos_iff.mpr hlabels
      simpa using this
    simp only [if_true, List.getLast?_concat, List.dropLast_concat, mapM_label, hmany]
    exact name_labels ⟨labels, true, hlen⟩
  | false =>
    have hlast : (labels.map Label.octets).getLast? ≠ some [] := by
      intro hlast
      obtain ⟨l, -, hl⟩ := List.mem_map.mp (List.mem_of_getLast? hlast)
      exact l.ne_nil hl
    simp only [Bool.false_eq_true, if_false, List.append_nil, if_neg hlast, mapM_label]
    exact name_labels ⟨labels, false, hlen⟩

theorem asciiLower_joined (ls : List Label) :
    asciiLower (NameSyntax.octets.joined ls) =
      NameSyntax.octets.joined (ls.map Label.lower) := by
  induction ls with
  | nil => rfl
  | cons l ls ih =>
    cases ls with
    | nil =>
      rw [List.map_singleton, NameSyntax.joined, NameSyntax.joined, List.map_singleton,
        List.map_singleton, List.intercalate_singleton, List.intercalate_singleton]
      exact asciiLower_labelText l
    | cons l' ls =>
      have hl : asciiLower (NameSyntax.octets.labelText l) = NameSyntax.octets.labelText l.lower :=
        asciiLower_labelText l
      have hdot : ∀ cs ds : List Char,
          asciiLower (cs ++ '.' :: ds) = asciiLower cs ++ '.' :: asciiLower ds := by
        simp [asciiLower]
      rw [NameSyntax.joined_cons_cons, List.map_cons, List.map_cons, NameSyntax.joined_cons_cons,
        hdot, hl, ih, List.map_cons]

theorem asciiLower_text (n : Name) :
    asciiLower (NameSyntax.octets.text n) = NameSyntax.octets.text n.lower := by
  have happend : ∀ cs ds : List Char, asciiLower (cs ++ ds) = asciiLower cs ++ asciiLower ds := by
    simp [asciiLower]
  rw [NameSyntax.text, NameSyntax.text, happend, asciiLower_joined, Name.lower]
  cases n.isFqdn <;> rfl

theorem dot_escaped {bs : List UInt8} {cs ds : List Char} (h : bs.flatMap piece = cs ++ '.' :: ds) :
    ∃ es, cs = es ++ ['\\'] := by
  induction bs generalizing cs with
  | nil => simp at h
  | cons b bs ih =>
    rw [List.flatMap_cons, piece] at h
    split at h
    next =>
      -- an escape: the dot is its second character, or behind it
      cases cs with
      | nil => exact absurd (List.cons.inj h).1 (by decide)
      | cons c cs =>
        cases cs with
        | nil => exact ⟨[], by rw [← (List.cons.inj h).1]; rfl⟩
        | cons c' cs =>
          obtain ⟨es, rfl⟩ := ih (List.cons.inj (List.cons.inj h).2).2
          exact ⟨c :: c' :: es, rfl⟩
    next hb =>
      cases cs with
      | nil => exact absurd (List.cons.inj h).1 (char_ne b hb).1
      | cons c cs =>
        obtain ⟨es, rfl⟩ := ih (List.cons.inj h).2
        exact ⟨c :: es, rfl⟩

end OctetSyntax

theorem NameSyntax.octets_lawful : NameSyntax.octets.Lawful where
  labelText_ne_nil := OctetSyntax.labelText_ne_nil
  dot_escaped _ _ _ h := OctetSyntax.dot_escaped h
  fromUtf8_lower n := by
    rw [OctetSyntax.asciiLower_text]
    exact OctetSyntax.fromUtf8_toUtf8 n.lower
  emit_isSome _ := rfl
  emit_eq_iff n n' := by
    refine ⟨fun h => Name.wire_inj (Option.some.inj h), fun h => ?_⟩
    show some n.wire = some n'.wire
    rw [Name.wire, Name.wire, h]

end Conduit
