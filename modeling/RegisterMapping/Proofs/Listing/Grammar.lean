import RegisterMapping.Listing.Basic
import RegisterMapping.Listing.Reader

/-!
# The grammar of a listing

The sentences of the listing language, as relations between the tokens of a line and what they
say. Nothing here reads a token: `Sentence` lists the forms that a line may have, and `Says` adds
what is demanded of the registers in it. A register token says what `Register.parse` makes of its
text, and a number token has the value of its text, which has to be a word.

The demands are Boolean functions of the item: `Item.wellTyped` for the classes, and `Bank.admits`
for a register under an optional bank.
-/

set_option autoImplicit false

namespace RegisterMapping

/-! ## Tokens with a meaning -/

/-- The token is the text of the register. -/
def Token.Names (token : Token) (r : Register) : Prop :=
  token.kind = .register ∧ Register.parse token.text = .ok r

/-- With the given sign, the token is the text of the word. -/
def Token.Counts (negative : Bool) (token : Token) (word : Int64) : Prop :=
  token.kind = .number ∧ word.toInt = signedValue negative token.text

/-- The token is the mnemonic. -/
def Token.Calls (token : Token) (mnemonic : Mnemonic) : Prop :=
  token.kind = .name ∧ token.text = mnemonic.text.toList

/-! ## Phrases -/

/-- A constant: a number that may have a minus sign. -/
inductive ConstantPhrase : List Token → Int64 → Prop
  | plain {number : Token} {word : Int64} :
      number.Counts false word → ConstantPhrase [number] word
  | negated {minus number : Token} {word : Int64} :
      minus.kind = .minus → number.Counts true word → ConstantPhrase [minus, number] word

/-- The distance of a memory operand from its base: nothing, or a number after a sign. -/
inductive DistancePhrase : List Token → Int64 → Prop
  | absent : DistancePhrase [] 0
  | added {plus number : Token} {word : Int64} :
      plus.kind = .plus → number.Counts false word → DistancePhrase [plus, number] word
  | subtracted {minus number : Token} {word : Int64} :
      minus.kind = .minus → number.Counts true word → DistancePhrase [minus, number] word

/-- A memory operand: a base and a distance in brackets. -/
inductive AddressPhrase : List Token → Address → Prop
  | mk {left base right : Token} {distance : List Token} {r : Register} {word : Int64} :
      left.kind = .leftBracket → base.Names r → DistancePhrase distance word →
      right.kind = .rightBracket →
      AddressPhrase (left :: base :: (distance ++ [right])) ⟨.reg r, word⟩

/-- Two registers with a comma between them. -/
inductive PairPhrase : List Token → Register → Register → Prop
  | mk {left comma right : Token} {a b : Register} :
      left.Names a → comma.kind = .comma → right.Names b → PairPhrase [left, comma, right] a b

/-- The operands of an instruction, as they follow its mnemonic. -/
inductive OperandPhrase : Mnemonic → List Token → Instr → Prop
  | li {dst comma : Token} {constant : List Token} {r : Register} {imm : Int64} :
      dst.Names r → comma.kind = .comma → ConstantPhrase constant imm →
      OperandPhrase .li (dst :: comma :: constant) (.li (.reg r) imm)
  | mov {tokens : List Token} {dst src : Register} :
      PairPhrase tokens dst src → OperandPhrase .mov tokens (.mov (.reg dst) (.reg src))
  | alu {op : AluOp} {tokens : List Token} {dst src : Register} :
      PairPhrase tokens dst src → OperandPhrase (.alu op) tokens (.alu op (.reg dst) (.reg src))
  | neg {dst : Token} {r : Register} :
      dst.Names r → OperandPhrase .neg [dst] (.neg (.reg r))
  | ld {dst comma : Token} {tokens : List Token} {r : Register} {address : Address} :
      dst.Names r → comma.kind = .comma → AddressPhrase tokens address →
      OperandPhrase .ld (dst :: comma :: tokens) (.ld (.reg r) address)
  | st {src comma : Token} {tokens : List Token} {r : Register} {address : Address} :
      src.Names r → comma.kind = .comma → AddressPhrase tokens address →
      OperandPhrase .st (src :: comma :: tokens) (.st (.reg r) address)
  | fma {dst comma : Token} {tokens : List Token} {r a b : Register} :
      dst.Names r → comma.kind = .comma → PairPhrase tokens a b →
      OperandPhrase .fma (dst :: comma :: tokens) (.fma (.reg r) (.reg a) (.reg b))
  | cmp {tokens : List Token} {left right : Register} :
      PairPhrase tokens left right → OperandPhrase .cmp tokens (.cmp (.reg left) (.reg right))
  | ret {src : Token} {r : Register} :
      src.Names r → OperandPhrase .ret [src] (.ret (.reg r))

/-- What the tokens of a line say: an instruction after its mnemonic, or a register, an arrow and
a register. -/
inductive Sentence : List Token → Item → Prop
  | instr {name : Token} {tokens : List Token} {mnemonic : Mnemonic} {inst : Instr} :
      name.Calls mnemonic → OperandPhrase mnemonic tokens inst →
      Sentence (name :: tokens) (.instr inst)
  | assignment {left arrow right : Token} {virt real : Register} :
      left.Names virt → arrow.kind = .arrow → right.Names real →
      Sentence [left, arrow, right] (.assignment virt real)

/-! ## Demands on registers -/

/-- The classes of the operands are as the instruction demands: constants and bases go into
integer registers, and arithmetic and copies stay within a class. No operand is invalid. -/
def Instr.wellTyped : Instr → Bool
  | .li (.reg dst) _ => dst.cls.isInteger
  | .mov (.reg dst) (.reg src) => dst.cls = src.cls
  | .alu _ (.reg dst) (.reg src) => dst.cls = src.cls
  | .neg (.reg _) => true
  | .ld (.reg _) ⟨.reg base, _⟩ => base.cls.isInteger
  | .st (.reg _) ⟨.reg base, _⟩ => base.cls.isInteger
  | .fma (.reg dst) (.reg a) (.reg b) => dst.cls = a.cls && a.cls = b.cls
  | .cmp (.reg left) (.reg right) => left.cls = right.cls
  | .ret (.reg _) => true
  | _ => false

namespace Item

/-- An instruction has operands of the right classes, and an assignment goes from a virtual
register to a real one of its class. -/
def wellTyped : Item → Bool
  | .instr inst => inst.wellTyped
  | .assignment virt real => virt.isVirtual && real.isReal && virt.cls = real.cls

/-- The registers that an item mentions. -/
def registers : Item → List Register
  | .instr inst => inst.operands.filterMap Handle.register?
  | .assignment virt real => [virt, real]

/-- The register that an assignment assigns. -/
def assigned? : Item → Option Register
  | .instr _ => none
  | .assignment virt _ => some virt

end Item

/-- Under a bank, a real register has to be in it. -/
def Bank.admits (bank? : Option Bank) (r : Register) : Bool :=
  bank?.all fun bank => r.isVirtual || bank.contains r

/-- The item keeps the rules that one line can keep or break. -/
def Item.Admissible (bank? : Option Bank) (item : Item) : Prop :=
  item.wellTyped = true ∧ ∀ r ∈ item.registers, Bank.admits bank? r = true

instance (bank? : Option Bank) (item : Item) : Decidable (item.Admissible bank?) :=
  inferInstanceAs (Decidable (_ ∧ _))

/-! ## Lines with their places -/

/-- The span of the last token of a phrase, or of what stands before an empty one. -/
def lastSpan : Span → List Token → Span
  | before, [] => before
  | _, token :: rest => lastSpan token.span rest

/-- From the start of the first token to the end of the last one. -/
def phraseSpan? : List Token → Option Span
  | [] => none
  | first :: rest => some (first.span.cover (lastSpan first.span rest))

/-- The tokens say the item, which keeps the rules, and stand at the span. -/
def Says (bank? : Option Bank) (tokens : List Token) (placed : Item × Span) : Prop :=
  Sentence tokens placed.1 ∧ placed.1.Admissible bank? ∧ phraseSpan? tokens = some placed.2

namespace Listing

/-- The lines of a source text that hold a token, as they come between newline tokens. -/
def sentenceLines (file : Nat) (source : List Char) : List (List Token) :=
  ((Token.scan file 0 source).splitOnP fun token => token.kind = .newline).filter
    fun tokens => !tokens.isEmpty

/-- The listing of items with their places. -/
def ofItems (placed : List (Item × Span)) : Listing where
  insts := placed.filterMap fun
    | (.instr inst, span) => some (inst, span)
    | (.assignment _ _, _) => none
  assignments := placed.filterMap fun
    | (.instr _, _) => none
    | (.assignment virt real, span) => some ⟨.reg virt, .reg real, span⟩

end Listing

end RegisterMapping
