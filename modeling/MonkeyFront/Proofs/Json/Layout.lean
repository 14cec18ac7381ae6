import Mathlib
import MonkeyFront.Json.Layout
import MonkeyFront.Proofs.Scanner.Spelling
import MonkeyFront.Proofs.Text.Quoted

/-!
# JSON text can be read back

The text of a value tells where it ends, as long as a comma or a line feed comes next. So no two
values are laid out alike.
-/

namespace MonkeyFront.JsonValue

/-! ## Characters of a string -/

/-- The unit that is written in four hexadecimal digits, and the text after them. -/
def readUnit (text : List Char) : Nat × List Char := (Text.hexValue (text.take 4), text.drop 4)

/-- The character whose units are written here. A first surrogate takes another escape with it. -/
def readUnits (text : List Char) : Char × List Char :=
  let (unit, rest) := readUnit text
  if 0xD800 ≤ unit ∧ unit < 0xDC00 then
    let (second, rest) := readUnit (rest.drop 2)
    (Char.ofNat (0x10000 + (unit - 0xD800) * 0x400 + (second - 0xDC00)), rest)
  else (Char.ofNat unit, rest)

/-- The character that the inside of a JSON string starts with, and the text after it. There is none
at the mark that ends the string. -/
def readChar : List Char → Option (Char × List Char)
  | [] => none
  | '\\' :: [] => none
  | '\\' :: kind :: rest =>
    if kind = 'n' then some ('\n', rest)
    else if kind = 'r' then some ('\r', rest)
    else if kind = 't' then some ('\t', rest)
    else if kind = 'b' then some ('\x08', rest)
    else if kind = 'f' then some ('\x0c', rest)
    else if kind = 'u' then some (readUnits rest)
    else some (kind, rest)
  | c :: rest => if c = '\x22' then none else some (c, rest)

theorem readUnit_hexDigits {unit : Nat} (h : unit < 16 ^ 4) (rest : List Char) :
    readUnit (Text.hexDigits 4 unit ++ rest) = (unit, rest) := by
  have htake : (Text.hexDigits 4 unit ++ rest).take 4 = Text.hexDigits 4 unit :=
    List.take_left' (Text.length_hexDigits 4 _)
  have hdrop : (Text.hexDigits 4 unit ++ rest).drop 4 = rest :=
    List.drop_left' (Text.length_hexDigits 4 _)
  rw [readUnit, htake, hdrop, Text.hexValue_hexDigits, Nat.mod_eq_of_lt h]

/-- No character is a surrogate. -/
theorem not_surrogate (c : Char) : ¬(0xD800 ≤ c.toNat ∧ c.toNat < 0xE000) := by
  rcases c.valid with h | h
  · exact fun hc => absurd (show c.toNat < 0xD800 from h) (by omega)
  · exact fun hc => absurd (show 0xDFFF < c.toNat from h.1) (by omega)

theorem toNat_lt (c : Char) : c.toNat < 0x110000 := by
  rcases c.valid with h | h
  · exact Nat.lt_trans (show c.toNat < 0xD800 from h) (by decide)
  · exact h.2

theorem readUnits_unit {c : Char} (h : c.toNat < 0x10000) (rest : List Char) :
    readUnits (Text.hexDigits 4 c.toNat ++ rest) = (c, rest) := by
  have hc : ¬(0xD800 ≤ c.toNat ∧ c.toNat < 0xDC00) := fun hc =>
    not_surrogate c ⟨hc.1, by omega⟩
  simp only [readUnits, readUnit_hexDigits h, if_neg hc, Char.ofNat_toNat]

theorem readUnits_pair {c : Char} (h : ¬c.toNat < 0x10000) (rest : List Char) :
    readUnits (Text.hexDigits 4 (0xD800 + (c.toNat - 0x10000) / 0x400)
      ++ (escapeUnit (0xDC00 + (c.toNat - 0x10000) % 0x400) ++ rest)) = (c, rest) := by
  have hlt := toNat_lt c
  have hfirst : 0xD800 + (c.toNat - 0x10000) / 0x400 < 0xDC00 := by omega
  have hsecond : 0xDC00 + (c.toNat - 0x10000) % 0x400 < 0x10000 := by omega
  have hcode : 0x10000 + (0xD800 + (c.toNat - 0x10000) / 0x400 - 0xD800) * 0x400
      + (0xDC00 + (c.toNat - 0x10000) % 0x400 - 0xDC00) = c.toNat := by omega
  have hpair : 0xD800 ≤ 0xD800 + (c.toNat - 0x10000) / 0x400
      ∧ 0xD800 + (c.toNat - 0x10000) / 0x400 < 0xDC00 := ⟨by omega, hfirst⟩
  simp only [readUnits, readUnit_hexDigits (Nat.lt_trans hfirst (by decide)), if_pos hpair,
    escapeUnit, List.cons_append, List.drop_succ_cons, List.drop_zero, readUnit_hexDigits hsecond,
    hcode, Char.ofNat_toNat]

/-- A character is read back, whatever comes after it. -/
theorem readChar_escapeChar (c : Char) (rest : List Char) :
    readChar (escapeChar c ++ rest) = some (c, rest) := by
  unfold escapeChar
  split
  next hc => rcases hc with rfl | rfl <;> rfl
  next hplain =>
    split
    next hc => rw [hc]; rfl
    split
    next hc => rw [hc]; rfl
    split
    next hc => rw [hc]; rfl
    split
    next hc => rw [hc]; rfl
    split
    next hc => rw [hc]; rfl
    split
    next =>
      obtain ⟨hmark, hslash⟩ := not_or.mp hplain
      simp [readChar, hmark, hslash]
    split
    next h => exact congrArg some (readUnits_unit h rest)
    next h => exact congrArg some (readUnits_pair h rest)

theorem stringText_append_inj {text other : String} {rest more : List Char}
    (h : (stringText text).toList ++ rest = (stringText other).toList ++ more) :
    text = other ∧ rest = more := by
  simp only [stringText, String.toList_ofList, List.cons_append, List.cons.injEq, true_and,
    List.append_assoc, List.nil_append] at h
  obtain ⟨htext, hrest⟩ := Text.flatMap_append_inj readChar_escapeChar rfl rfl h
  exact ⟨String.toList_injective htext, (List.cons.inj hrest).2⟩

/-! ## Numbers -/

/-- The characters of numbers. -/
def isNumeral (c : Char) : Bool := c.isDigit || c == '-'

theorem isNumeral_of_mem_repr {n : Int} {c : Char} (h : c ∈ n.repr.toList) :
    isNumeral c = true := by
  have hdigit {m : Nat} (h : c ∈ m.repr.toList) : c.isDigit = true := by
    rw [Nat.repr_eq_ofList_toDigits, String.toList_ofList] at h
    exact Nat.isDigit_of_mem_toDigits (Nat.succ_pos 9) (Nat.le_refl 10) h
  cases n with
  | ofNat m => simp [isNumeral, hdigit h]
  | negSucc m =>
      rw [Int.repr, String.toList_append, List.mem_append] at h
      rcases h with h | h
      · obtain rfl : c = '-' := by simpa using h
        rfl
      · simp [isNumeral, hdigit h]

theorem repr_ne_nil (n : Int) : n.repr.toList ≠ [] := by
  cases n with
  | ofNat m => exact fun h => Nat.repr_ne_empty (String.toList_injective h)
  | negSucc m => simp [Int.repr]

/-! ## What comes after a value -/

/-- A text that can stand after a value: it is empty, or a comma or a line feed comes first. -/
def Stops (rest : List Char) : Prop := ∀ c ∈ rest.head?, c = ',' ∨ c = '\n'

theorem repr_append_inj {n m : Int} {rest more : List Char} (hrest : Stops rest)
    (hmore : Stops more) (h : n.repr.toList ++ rest = m.repr.toList ++ more) :
    n = m ∧ rest = more := by
  have hstop {rest : List Char} (h : Stops rest) : ∀ c ∈ rest.head?, isNumeral c = false := by
    intro c hc
    rcases h c hc with rfl | rfl <;> rfl
  have htake := congrArg (List.takeWhile isNumeral) h
  rw [takeWhile_append_of_stop (fun c => isNumeral_of_mem_repr) (hstop hrest),
    takeWhile_append_of_stop (fun c => isNumeral_of_mem_repr) (hstop hmore)] at htake
  rw [htake] at h
  exact ⟨Int.repr_injective (String.toList_injective htake), List.append_cancel_left h⟩

/-! ## First characters -/

/-- What a value starts with. All numbers start alike. -/
def opening : JsonValue → Char
  | null => 'n'
  | bool value => if value then 't' else 'f'
  | int _ => '0'
  | string _ => '\x22'
  | array _ => '['
  | object _ => '\x7b'

/-- The opening that a character belongs to. -/
def openingOf (c : Char) : Char := if isNumeral c then '0' else c

theorem head?_layoutAt (depth : Nat) (value : JsonValue) (rest : List Char) :
    ((value.layoutAt depth).toList ++ rest).head?.map openingOf = some value.opening := by
  cases value with
  | null => simp [layoutAt, opening, openingOf, isNumeral]
  | bool value => cases value <;> simp [layoutAt, opening, openingOf, isNumeral]
  | int n =>
      obtain ⟨c, more, htext⟩ := List.exists_cons_of_ne_nil (repr_ne_nil n)
      have hc : isNumeral c = true := isNumeral_of_mem_repr (htext ▸ List.mem_cons_self)
      show ((n.repr.toList ++ rest).head?.map openingOf) = some '0'
      simp [htext, openingOf, hc]
  | string text => simp [layoutAt, stringText, opening, openingOf, isNumeral]
  | array items => cases items <;> simp [layoutAt, opening, openingOf, isNumeral]
  | object fields => cases fields <;> simp [layoutAt, opening, openingOf, isNumeral]

theorem opening_eq {depth : Nat} {value other : JsonValue} {rest more : List Char}
    (h : (value.layoutAt depth).toList ++ rest = (other.layoutAt depth).toList ++ more) :
    value.opening = other.opening := by
  have hhead := head?_layoutAt depth value rest
  rw [h, head?_layoutAt] at hhead
  exact (Option.some.inj hhead).symm

/-! ## Values -/

@[simp] theorem toList_newLine (depth : Nat) :
    (newLine depth).toList = '\n' :: List.replicate (2 * depth) ' ' := by
  simp [newLine]

theorem stops_itemsAt (depth : Nat) (items : List JsonValue) {rest : List Char}
    (h : rest.head? = some '\n') : Stops ((itemsAt depth items).toList ++ rest) := by
  cases items <;> simp [Stops, itemsAt, h]

theorem stops_fieldsAt (depth : Nat) (fields : List (String × JsonValue)) {rest : List Char}
    (h : rest.head? = some '\n') : Stops ((fieldsAt depth fields).toList ++ rest) := by
  cases fields <;> simp [Stops, fieldsAt, h]

mutual

/-- A value is told from its text, and so is what comes after it. -/
theorem layoutAt_append_inj (depth : Nat) (value other : JsonValue) {rest more : List Char}
    (hrest : Stops rest) (hmore : Stops more)
    (h : (value.layoutAt depth).toList ++ rest = (other.layoutAt depth).toList ++ more) :
    value = other ∧ rest = more := by
  have hopening := opening_eq h
  cases value with
  | null =>
      cases other with
      | null => exact ⟨rfl, List.append_cancel_left h⟩
      | _ => grind [opening]
  | bool a =>
      cases other with
      | bool b =>
          obtain rfl : a = b := by cases a <;> cases b <;> simp [opening] at hopening ⊢
          exact ⟨rfl, List.append_cancel_left h⟩
      | _ => grind [opening]
  | int n =>
      cases other with
      | int m =>
          obtain ⟨rfl, hrest⟩ := repr_append_inj hrest hmore h
          exact ⟨rfl, hrest⟩
      | _ => grind [opening]
  | string a =>
      cases other with
      | string b =>
          obtain ⟨rfl, hrest⟩ := stringText_append_inj h
          exact ⟨rfl, hrest⟩
      | _ => grind [opening]
  | array items =>
      cases other with
      | array others =>
          cases items with
          | nil =>
              cases others with
              | nil => exact ⟨rfl, List.append_cancel_left h⟩
              | cons first others => simp [layoutAt] at h
          | cons item items =>
              cases others with
              | nil => simp [layoutAt] at h
              | cons other others =>
                  have hitems : (itemsAt (depth + 1) (item :: items)).toList
                        ++ ((newLine depth).toList ++ ']' :: rest)
                      = (itemsAt (depth + 1) (other :: others)).toList
                        ++ ((newLine depth).toList ++ ']' :: more) := by
                    simpa [layoutAt, itemsAt] using h
                  obtain ⟨heq, hend⟩ := itemsAt_append_inj (depth + 1) (item :: items)
                    (other :: others) (by simp) (by simp) hitems
                  exact ⟨congrArg array heq, by simpa using hend⟩
      | _ => grind [opening]
  | object fields =>
      cases other with
      | object others =>
          cases fields with
          | nil =>
              cases others with
              | nil => exact ⟨rfl, List.append_cancel_left h⟩
              | cons first others => simp [layoutAt] at h
          | cons field fields =>
              cases others with
              | nil => simp [layoutAt] at h
              | cons other others =>
                  have hfields : (fieldsAt (depth + 1) (field :: fields)).toList
                        ++ ((newLine depth).toList ++ '\x7d' :: rest)
                      = (fieldsAt (depth + 1) (other :: others)).toList
                        ++ ((newLine depth).toList ++ '\x7d' :: more) := by
                    simpa [layoutAt, fieldsAt] using h
                  obtain ⟨heq, hend⟩ := fieldsAt_append_inj (depth + 1) (field :: fields)
                    (other :: others) (by simp) (by simp) hfields
                  exact ⟨congrArg object heq, by simpa using hend⟩
      | _ => grind [opening]

theorem itemsAt_append_inj (depth : Nat) (items others : List JsonValue) {rest more : List Char}
    (hrest : rest.head? = some '\n') (hmore : more.head? = some '\n')
    (h : (itemsAt depth items).toList ++ rest = (itemsAt depth others).toList ++ more) :
    items = others ∧ rest = more := by
  have hhead := congrArg List.head? h
  cases items with
  | nil =>
      cases others with
      | nil => exact ⟨rfl, List.append_cancel_left h⟩
      | cons other others => simp [itemsAt, hrest] at hhead
  | cons item items =>
      cases others with
      | nil => simp [itemsAt, hmore] at hhead
      | cons other others =>
          simp only [itemsAt, String.toList_append, List.append_assoc,
            List.append_cancel_left_eq] at h
          obtain ⟨rfl, hitems⟩ := layoutAt_append_inj depth item other
            (stops_itemsAt _ items hrest) (stops_itemsAt _ others hmore) h
          obtain ⟨rfl, hend⟩ := itemsAt_append_inj depth items others hrest hmore hitems
          exact ⟨rfl, hend⟩

theorem fieldsAt_append_inj (depth : Nat) (fields others : List (String × JsonValue))
    {rest more : List Char} (hrest : rest.head? = some '\n') (hmore : more.head? = some '\n')
    (h : (fieldsAt depth fields).toList ++ rest = (fieldsAt depth others).toList ++ more) :
    fields = others ∧ rest = more := by
  have hhead := congrArg List.head? h
  cases fields with
  | nil =>
      cases others with
      | nil => exact ⟨rfl, List.append_cancel_left h⟩
      | cons other others => simp [fieldsAt, hrest] at hhead
  | cons field fields =>
      cases others with
      | nil => simp [fieldsAt, hmore] at hhead
      | cons other others =>
          simp only [fieldsAt, String.toList_append, List.append_assoc,
            List.append_cancel_left_eq] at h
          obtain ⟨hkey, hcolon⟩ := stringText_append_inj h
          obtain ⟨hvalue, hfields⟩ := layoutAt_append_inj depth field.2 other.2
            (stops_fieldsAt _ fields hrest) (stops_fieldsAt _ others hmore)
            (List.append_cancel_left hcolon)
          obtain ⟨rfl, hend⟩ := fieldsAt_append_inj depth fields others hrest hmore hfields
          obtain rfl : field = other := Prod.ext hkey hvalue
          exact ⟨rfl, hend⟩

end

/-- No two values are laid out alike. -/
theorem layout_injective {value other : JsonValue} (h : value.layout = other.layout) :
    value = other := by
  have hstops : Stops [] := by simp [Stops]
  have htext := congrArg (fun text => text.toList ++ []) h
  exact (layoutAt_append_inj 0 value other hstops hstops htext).1

end MonkeyFront.JsonValue
