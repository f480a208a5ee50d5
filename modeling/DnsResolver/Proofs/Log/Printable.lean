import DnsResolver.Proofs.Name.Labels
import DnsResolver.Resolver.Event

/-!
# Printable text

Names, addresses, numbers, types and questions are shown in printable ASCII characters, none of
which breaks a line.  The messages about errors are made up of these, but for two kinds of text that
they quote: a label that is too long, and what the network says about itself.
-/

namespace DnsResolver

/-- An ASCII character that is no control character. -/
def IsPrintable (c : Char) : Prop :=
  32 ≤ c.toNat ∧ c.toNat < 127

instance : DecidablePred IsPrintable :=
  fun _ => inferInstanceAs (Decidable (_ ∧ _))

/-- All characters of the text are printable. -/
def Printable (text : String) : Prop :=
  ∀ c ∈ text.toList, IsPrintable c

instance : DecidablePred Printable :=
  fun text => List.decidableBAll IsPrintable text.toList

theorem printable_append {s t : String} : Printable (s ++ t) ↔ Printable s ∧ Printable t := by
  simp [Printable, or_imp, forall_and]

/-- A text stands for itself where it is put into another one. -/
theorem printable_toString {text : String} : Printable (toString text) ↔ Printable text :=
  Iff.rfl

theorem printable_ofList {chars : List Char} :
    Printable (String.ofList chars) ↔ ∀ c ∈ chars, IsPrintable c := by
  simp [Printable]

/-! ## Numbers -/

theorem isPrintable_digitChar : ∀ n < 16, IsPrintable (Nat.digitChar n) := by
  decide

theorem isPrintable_of_mem_toDigits {base : Nat} (hbase : 1 < base) (hmost : base ≤ 16) (n : Nat) :
    ∀ c ∈ Nat.toDigits base n, IsPrintable c := by
  induction n using Nat.strongRecOn with
  | _ n ih =>
    rw [Nat.toDigits_eq_if hbase]
    split
    next hsmall =>
      exact List.forall_mem_singleton.mpr (isPrintable_digitChar n (by omega))
    next hlarge =>
      have hlast : n % base < base := Nat.mod_lt n (by omega)
      refine List.forall_mem_append.mpr ⟨ih (n / base) (Nat.div_lt_self (by omega) hbase), ?_⟩
      exact List.forall_mem_singleton.mpr (isPrintable_digitChar _ (by omega))

theorem printable_nat (n : Nat) : Printable (toString n) := by
  rw [Printable, Nat.toString_eq_repr, Nat.toList_repr]
  exact isPrintable_of_mem_toDigits (by decide) (by decide) n

theorem isPrintable_of_mem_digits {octet : UInt8} : ∀ c ∈ Hex.digits octet, IsPrintable c := by
  have hoctet := octet.toNat_lt
  simp only [Hex.digits, List.forall_mem_cons]
  refine ⟨isPrintable_digitChar _ (by omega), isPrintable_digitChar _ (by omega), ?_⟩
  exact List.forall_mem_nil _

theorem printable_hex (octets : Octets) : Printable (Hex.ofOctets octets) := by
  rw [Hex.ofOctets, printable_ofList]
  intro c hc
  obtain ⟨octet, -, hdigit⟩ := List.mem_flatMap.mp hc
  exact isPrintable_of_mem_digits c hdigit

theorem printable_octet (octet : UInt8) : Printable (Hex.octet octet) :=
  printable_append.mpr ⟨by decide, printable_hex [octet]⟩

theorem printable_word (word : UInt16) : Printable (Hex.word word) :=
  printable_append.mpr ⟨by decide, printable_hex (Octets.ofWord16 word)⟩

/-! ## Addresses -/

theorem IPv4.printable (address : IPv4) : Printable (toString address) := by
  change Printable address.display
  simp only [display, printable_append, printable_nat]
  decide

theorem printable_intercalate {separator : String} {texts : List String}
    (hseparator : Printable separator) (htexts : ∀ text ∈ texts, Printable text) :
    Printable (separator.intercalate texts) := by
  rw [Printable, String.toList_intercalate]
  induction texts with
  | nil => exact List.forall_mem_nil _
  | cons text texts ih =>
    obtain ⟨htext, hrest⟩ := List.forall_mem_cons.mp htexts
    cases texts with
    | nil =>
      rw [List.map_singleton, List.intercalate_singleton]
      exact htext
    | cons next texts =>
      rw [List.map_cons, List.map_cons, List.intercalate_cons_cons, ← List.map_cons]
      exact List.forall_mem_append.mpr
        ⟨List.forall_mem_append.mpr ⟨htext, hseparator⟩, ih hrest⟩

theorem IPv6.printable_groupText (groups : List UInt16) : Printable (groupText groups) := by
  refine printable_intercalate (by decide) ?_
  intro text htext
  obtain ⟨group, -, rfl⟩ := List.mem_map.mp htext
  exact printable_ofList.mpr (isPrintable_of_mem_toDigits (by decide) (by decide) group.toNat)

theorem IPv6.printable (address : IPv6) : Printable (toString address) := by
  change Printable address.display
  unfold display
  split
  next v4 _ => exact printable_append.mpr ⟨by decide, v4.printable⟩
  next =>
    dsimp only
    split
    · simp only [printable_append, printable_groupText]
      decide
    · exact printable_groupText _

theorem SocketAddress.printable (address : SocketAddress) : Printable (toString address) := by
  change Printable address.display
  cases address with
  | v4 address port =>
    simp only [display, printable_append, IPv4.printable, printable_nat]
    decide
  | v6 address zone port =>
    have hzone : Printable (if zone = 0 then "" else s!"%{zone.toNat}") := by
      split
      · decide
      · exact printable_append.mpr ⟨by decide, printable_nat zone.toNat⟩
    simp only [display, printable_append, printable_toString, IPv6.printable, hzone, printable_nat]
    decide

/-! ## Names -/

theorem Octets.isPrintable_of_isLabelOctet :
    ∀ c : UInt8, isLabelOctet c = true → IsPrintable (Char.ofNat c.toNat) :=
  forall_octet (by decide +kernel)

/-- The octets of a name have passed the check for legal octets, or separate labels. -/
theorem Name.printable (name : Name) : Printable (ToString.toString name) := by
  change Printable name.display
  rw [display]
  split
  · decide
  · change Printable (Octets.text name.text)
    rw [Octets.text, printable_ofList, List.forall_mem_map]
    intro c hc
    rw [← join_labels] at hc
    rcases Labels.mem_of_mem_join hc with rfl | ⟨label, hlabel, hmem⟩
    · decide
    · exact Octets.isPrintable_of_isLabelOctet c ((labels_legal name label hlabel).octets c hmem)

/-! ## Types, classes and questions -/

theorem printable_lookup {table : List (UInt16 × String)} (htable : ∀ row ∈ table, Printable row.2)
    {code : UInt16} {other : String} (hother : Printable other) :
    Printable ((table.lookup code).getD other) := by
  cases hlookup : table.lookup code with
  | none => exact hother
  | some text =>
    obtain ⟨before, behind, hsplit, -⟩ := List.lookup_eq_some_iff.mp hlookup
    refine htable (code, text) ?_
    rw [hsplit]
    exact List.mem_append_right before List.mem_cons_self

theorem RecordType.printable (type : RecordType) : Printable (toString type) :=
  printable_lookup (by decide) (printable_append.mpr ⟨by decide, printable_nat type.code.toNat⟩)

theorem RecordClass.printable (recordClass : RecordClass) : Printable (toString recordClass) :=
  printable_lookup (by decide)
    (printable_append.mpr ⟨by decide, printable_nat recordClass.code.toNat⟩)

theorem Question.printable (question : Question) : Printable (toString question) := by
  change Printable question.display
  simp only [display, printable_append, Name.printable, RecordClass.printable, RecordType.printable]
  decide

/-! ## Errors -/

/-- What is reported about a name is printable, unless it quotes a label. -/
theorem NameError.printable_message {error : NameError}
    (h : ∀ label, error ≠ .labelTooLong label) :
    Printable error.message := by
  unfold message
  cases error with
  | labelTooLong label => exact absurd rfl (h label)
  | nameTooLong length =>
    simp only [printable_append, printable_nat]
    decide
  | emptyLabel =>
    dsimp only
    decide
  | illegalOctet octet =>
    simp only [printable_append, printable_toString, printable_octet]
    decide

theorem DecodeError.printable_message {error : DecodeError}
    (h : ∀ label, error ≠ .name (.labelTooLong label)) :
    Printable error.message := by
  unfold message
  cases error with
  | name error =>
    refine NameError.printable_message ?_
    rintro label rfl
    exact h label rfl
  | _ =>
    simp only [printable_append, printable_toString, printable_nat, printable_octet]
    decide

theorem ExchangeError.printable_message {error : ExchangeError}
    (h : ∀ server source, error = .io server source → Printable source) :
    Printable error.message := by
  unfold message
  cases error with
  | timeout server =>
    simp only [printable_append, SocketAddress.printable]
    decide
  | io server source =>
    simp only [printable_append, printable_toString, SocketAddress.printable, h server source rfl]
    decide

theorem HandleError.printable_message (error : HandleError) : Printable error.message := by
  unfold message
  cases error with
  | tooShort length =>
    simp only [printable_append, printable_nat]
    decide

end DnsResolver
