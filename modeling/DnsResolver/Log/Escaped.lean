import DnsResolver.Octets.Hex

/-!
# Escaped text

A log may be read at a terminal, and a terminal obeys some control characters instead of showing
them.  `Escaped.ofString` writes such characters by their code, so that no text steers the terminal
of its reader (`steers_of_mem_ofString`), and leaves all other characters as they are
(`ofString_of_forall`).  Line breaks and tabs are not escaped.
-/

namespace DnsResolver
namespace Escaped

/-- Whether a terminal may obey a character: bell, backspace, form feed, escape, delete, and the
control characters beyond ASCII. -/
def steers (c : Char) : Bool :=
  c = '\x07' || c = '\x08' || c = '\x0c' || c = '\x1b' || (127 ≤ c.toNat && c.toNat < 160)

/-- The text that stands for a character: the code of one that steers a terminal, in one notation
within ASCII and in another beyond it, and any other character itself. -/
def ofChar (c : Char) : List Char :=
  if steers c then
    if c.toNat < 128 then '\\' :: 'x' :: Hex.digits c.toUInt8
    else '\\' :: 'u' :: '\x7b' :: (Hex.digits c.toUInt8 ++ ['\x7d'])
  else [c]

/-- A text in which no character steers a terminal. -/
def ofString (text : String) : String :=
  String.ofList (text.toList.flatMap ofChar)

/-- A hexadecimal digit steers no terminal. -/
theorem steers_of_mem_digits {octet : UInt8} {c : Char} (h : c ∈ Hex.digits octet) :
    steers c = false := by
  have hdigit : ∀ n, n < 16 → steers (Nat.digitChar n) = false := by decide
  have hoctet := octet.toNat_lt
  simp only [Hex.digits, List.mem_cons, List.not_mem_nil, or_false] at h
  rcases h with rfl | rfl
  · exact hdigit _ (by omega)
  · exact hdigit _ (by omega)

/-- What stands for a character steers no terminal. -/
theorem steers_of_mem_ofChar {c d : Char} (h : d ∈ ofChar c) : steers d = false := by
  unfold ofChar at h
  split at h
  · split at h
    · simp only [List.mem_cons] at h
      rcases h with rfl | rfl | h
      · decide
      · decide
      · exact steers_of_mem_digits h
    · simp only [List.mem_cons, List.mem_append, List.not_mem_nil, or_false] at h
      rcases h with rfl | rfl | rfl | h | rfl
      · decide
      · decide
      · decide
      · exact steers_of_mem_digits h
      · decide
  · rename_i hc
    rw [List.mem_singleton.mp h]
    simpa using hc

/-- No character of an escaped text steers a terminal. -/
theorem steers_of_mem_ofString {text : String} {c : Char} (h : c ∈ (ofString text).toList) :
    steers c = false := by
  rw [ofString, String.toList_ofList, List.mem_flatMap] at h
  obtain ⟨_, _, hc⟩ := h
  exact steers_of_mem_ofChar hc

/-- A text that steers no terminal stays as it is. -/
theorem ofString_of_forall {text : String} (h : ∀ c ∈ text.toList, steers c = false) :
    ofString text = text := by
  have hself : ∀ chars : List Char, (∀ c ∈ chars, steers c = false) →
      chars.flatMap ofChar = chars := by
    intro chars
    induction chars with
    | nil => exact fun _ => rfl
    | cons c rest ih =>
      intro hchars
      have hc : ofChar c = [c] := by simp [ofChar, hchars c]
      rw [List.flatMap_cons, hc, ih fun d hd => hchars d (List.mem_cons_of_mem c hd)]
      rfl
  rw [ofString, hself _ h, String.ofList_toList]

end Escaped
end DnsResolver
