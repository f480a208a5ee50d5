import Mathlib.Algebra.Group.Nat.Defs
import DnsResolver.Proofs.Resolver.Chains

/-!
# Depths in machine words

A machine word counts the levels of a resolution just as well as a number without bound, unless
aliases may be followed down to the largest word.  There the check of the depth comes too late: the
sum overflows before it, and the program stops or begins again at level zero.
-/

namespace DnsResolver

/-- A sum that a machine word can hold is the sum, however the program was built. -/
theorem Overflow.add?_of_lt (overflow : Overflow) {x y : UInt64}
    (h : x.toNat + y.toNat < UInt64.size) :
    overflow.add? x y = some (x + y) := by
  cases overflow with
  | traps => exact if_pos h
  | wraps => rfl

namespace Resolver

variable {σ : Type} {resolver : Resolver σ} {overflow : Overflow} {name target : Name}
  {type : RecordType} {depth : UInt64} {state after : State σ}

/-! ## One level -/

theorem resolveOnWords_of_tooDeep (h : resolver.config.maxDepth < depth.toNat) :
    resolver.resolveOnWords overflow name type depth state =
      some (resolver.resolve name type depth.toNat state) := by
  rw [resolveOnWords, if_pos h, resolve_of_tooDeep h]
  rfl

theorem resolveOnWords_of_ended (h : depth.toNat ≤ resolver.config.maxDepth)
    {records : List Record}
    (hlevel : resolver.resolveLevel name type state = (.ended records, after)) :
    resolver.resolveOnWords overflow name type depth state = some (records, after) := by
  rw [resolveOnWords, if_neg (Nat.not_lt.mpr h), hlevel]

theorem resolveOnWords_of_aliased (h : depth.toNat ≤ resolver.config.maxDepth)
    (hlevel : resolver.resolveLevel name type state = (.aliased target, after)) :
    resolver.resolveOnWords overflow name type depth state =
      (overflow.add? depth 1).bind fun deeper =>
        resolver.resolveOnWords overflow target .a deeper after := by
  rw [resolveOnWords, if_neg (Nat.not_lt.mpr h), hlevel]
  rfl

/-- Only a question for addresses finds an alias to follow. -/
theorem type_eq_of_resolveLevel_eq_aliased
    (hlevel : resolver.resolveLevel name type state = (.aliased target, after)) :
    type = .a := by
  rw [resolveLevel, bind_apply] at hlevel
  cases hlookUp : (resolver.lookUp (.of name type) state).1 with
  | some records =>
    rw [hlookUp] at hlevel
    cases hlevel
  | none =>
    rw [hlookUp] at hlevel
    simp only [bind_apply] at hlevel
    cases hsearch : (resolver.search name type maxQueries _ _).1 with
    | nil =>
      rw [hsearch] at hlevel
      cases hlevel
    | cons first others =>
      simp only [hsearch, bind_apply] at hlevel
      cases halias : aliasTarget? type first with
      | none =>
        rw [halias] at hlevel
        cases hlevel
      | some _ => exact (aliasTarget?_eq_some_iff.mp halias).1

/-! ## All levels -/

/-- Nothing is found beyond the deepest level. -/
theorem le_maxDepth_of_resolve_ne_nil {level : Nat}
    (h : (resolver.resolve name type level state).1 ≠ []) :
    level ≤ resolver.config.maxDepth := by
  refine Nat.le_of_not_lt fun hdeep => h ?_
  rw [resolve_of_tooDeep hdeep]
  rfl

/-- A word holds a level next to those that are resolved, if anything is found on it or the deepest
level is not the largest word. -/
theorem level_lt_size (hmax : resolver.config.maxDepth < 2 ^ 64) {level : Nat}
    (hlevel : level ≤ resolver.config.maxDepth + 1)
    (h : (resolver.resolve name type level state).1 ≠ [] ∨
      resolver.config.maxDepth < 2 ^ 64 - 1) :
    level < UInt64.size := by
  rcases h with hfound | hsmall
  · exact Nat.lt_of_le_of_lt (le_maxDepth_of_resolve_ne_nil hfound) hmax
  · exact Nat.lt_of_le_of_lt hlevel (Nat.add_lt_of_lt_sub hsmall)

/-- If the resolution finds anything, or the deepest level is not the largest word, words do. -/
theorem resolveOnWords_eq_resolve (hmax : resolver.config.maxDepth < 2 ^ 64)
    (h : (resolver.resolve name type depth.toNat state).1 ≠ [] ∨
      resolver.config.maxDepth < 2 ^ 64 - 1) :
    resolver.resolveOnWords overflow name type depth state =
      some (resolver.resolve name type depth.toNat state) := by
  obtain ⟨levels, hlevels⟩ : ∃ levels, depth.toNat = levels := ⟨_, rfl⟩
  induction levels using depth_induction resolver generalizing name type depth state with
  | tooDeep levels hdeep =>
    subst hlevels
    exact resolveOnWords_of_tooDeep hdeep
  | deeper levels hle ih =>
    subst hlevels
    rw [resolve_eq_resolveLevel hle, bind_apply] at h ⊢
    cases hlevel : resolver.resolveLevel name type state with
    | mk level after =>
      rw [hlevel] at h
      cases level with
      | ended records => exact resolveOnWords_of_ended hle hlevel
      | aliased target =>
        change (resolver.resolve target .a (depth.toNat + 1) after).1 ≠ [] ∨ _ at h
        have hsum : depth.toNat + (1 : UInt64).toNat < UInt64.size :=
          level_lt_size hmax (Nat.succ_le_succ hle) h
        have hdeeper : (depth + 1).toNat = depth.toNat + 1 := by
          rw [UInt64.toNat_add]
          exact Nat.mod_eq_of_lt hsum
        rw [← hdeeper] at h ih ⊢
        rw [resolveOnWords_of_aliased hle hlevel, overflow.add?_of_lt hsum, Option.bind_some]
        exact ih h rfl

/-- Words do for any question that is not for addresses, because no alias is followed. -/
theorem resolveOnWords_of_ne_address (hdepth : depth.toNat ≤ resolver.config.maxDepth)
    (htype : type ≠ .a) :
    resolver.resolveOnWords overflow name type depth state =
      some (resolver.resolve name type depth.toNat state) := by
  rw [resolve_eq_resolveLevel hdepth, bind_apply]
  cases hlevel : resolver.resolveLevel name type state with
  | mk level after =>
    cases level with
    | ended records => exact resolveOnWords_of_ended hdepth hlevel
    | aliased target => exact absurd (type_eq_of_resolveLevel_eq_aliased hlevel) htype

/-- An alias on the level of the largest word stops the program, or leads back to level zero. -/
theorem resolveOnWords_of_aliased_largest (hlargest : depth.toNat = 2 ^ 64 - 1)
    (h : depth.toNat ≤ resolver.config.maxDepth)
    (hlevel : resolver.resolveLevel name type state = (.aliased target, after)) :
    resolver.resolveOnWords .traps name type depth state = none ∧
      resolver.resolveOnWords .wraps name type depth state =
        resolver.resolveOnWords .wraps target .a 0 after := by
  obtain rfl : depth = 18446744073709551615 := UInt64.toNat_inj.mp hlargest
  rw [resolveOnWords_of_aliased h hlevel, resolveOnWords_of_aliased h hlevel]
  exact ⟨rfl, rfl⟩

end Resolver
end DnsResolver
