import KaspaScript.Meaning.Eval

namespace KaspaScript

/-- The declared parameters and their types. -/
abbrev Declared := String → Option TypeName

/-- A text of one character from U+0001 to U+0010. -/
def isControlText (text : String) : Bool :=
  match text.toList with
  | [ch] => 1 ≤ ch.toNat && ch.toNat ≤ 16
  | _ => false

def isOrdering : BinaryOp → Bool
  | .greater | .greaterEqual | .less | .lessEqual => true
  | _ => false

def indexedTy : String → Option Ty
  | "value" => some .num
  | "script" => some .bytes
  | _ => none

/-- The core expressions with their types. -/
inductive Fragment (Γ : Declared) : Expr → Ty → Prop
  | param {id ty} : Γ id.name = some ty → id.name ≠ "input_count" → id.name ≠ "output_count" →
      Fragment Γ (.ident id) ty.ty
  | count {id} : id.name = "input_count" ∨ id.name = "output_count" → Fragment Γ (.ident id) .num
  | integer {value span} : value ≤ i64Max → Fragment Γ (.integer value span) .num
  | string {value span} : isControlText value = false → (utf8Bytes value).length ≤ u32Max →
      Fragment Γ (.string value span) .bytes
  | bool {value span} : Fragment Γ (.bool value span) .bool
  | indexed {root field index span span' span'' ty} : root.name = "input" ∨ root.name = "output" →
      index ≤ u32Max → indexedTy field.name = some ty →
      Fragment Γ (.field (.call (.ident root) [.integer index span] span') field span'') ty
  | hash {id arg span ty} : id.name = "sha256" ∨ id.name = "blake2b" → Fragment Γ arg ty →
      Fragment Γ (.call (.ident id) [arg] span) .bytes
  | arith {left op right span} : op = .add ∨ op = .sub → Fragment Γ left .num →
      Fragment Γ right .num → Fragment Γ (.binary left op right span) .num
  | ordering {left op right span} : isOrdering op → Fragment Γ left .num →
      Fragment Γ right .num → Fragment Γ (.binary left op right span) .bool
  | equal {left right span ty} : Fragment Γ left ty → Fragment Γ right ty →
      Fragment Γ (.binary left .equal right span) .bool
  | notEqual {left right span ty} : ty ≠ .bytes → Fragment Γ left ty → Fragment Γ right ty →
      Fragment Γ (.binary left .notEqual right span) .bool
  | logical {left op right span} : op = .and ∨ op = .or → Fragment Γ left .bool →
      Fragment Γ right .bool → Fragment Γ (.binary left op right span) .bool
  | not {e span} : Fragment Γ e .bool → Fragment Γ (.unary .not e span) .bool
  | verify {signature key field span span'} : field.name = "verify" →
      Fragment Γ signature .bytes → Fragment Γ key .bytes →
      Fragment Γ (.call (.field signature field span) [key] span') .bool
  | multisig {id threshold keys signatures span span' span'' span'''} : id.name = "multisig" →
      1 ≤ threshold → threshold = signatures.length → signatures.length ≤ keys.length →
      keys.length ≤ u32Max → (∀ key ∈ keys, Fragment Γ key .bytes) →
      (∀ signature ∈ signatures, Fragment Γ signature .bytes) →
      Fragment Γ (.call (.ident id)
        [.integer threshold span, .array keys span', .array signatures span''] span''') .bool
  | continuation {id name root index span span' span''} : id.name = "continuation" →
      root.name = "output" → index ≤ u32Max →
      Fragment Γ
        (.call (.ident id) [name, .call (.ident root) [.integer index span] span'] span'') .bool

/-- What a `require` may say: locks stand only as conjuncts. -/
inductive RequireFragment (Γ : Declared) : Expr → Prop
  | bool {e} : Fragment Γ e .bool → RequireFragment Γ e
  | lock {root field bound span span'} : root.name = "block" →
      field.name = "height" ∨ field.name = "time" → Fragment Γ bound .num →
      RequireFragment Γ (.binary (.field (.ident root) field span) .greaterEqual bound span')
  | and {left right span} : RequireFragment Γ left → RequireFragment Γ right →
      RequireFragment Γ (.binary left .and right span)

end KaspaScript
