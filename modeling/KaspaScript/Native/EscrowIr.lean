import KaspaScript.Native.Escrow

namespace KaspaScript

open Library (toOption_map_eq_some)

/-- The tokens of the escrow's file: kind, start and end. -/
def escrowTokens : List Token :=
  [⟨.contract, 0, 8⟩, ⟨.identifier "BuyerSellerEscrow", 9, 26⟩, ⟨.leftBrace, 27, 28⟩,
    ⟨.params, 31, 37⟩, ⟨.leftBrace, 38, 39⟩, ⟨.identifier "buyer", 44, 49⟩, ⟨.colon, 49, 50⟩,
    ⟨.type .publicKey, 51, 60⟩, ⟨.comma, 60, 61⟩, ⟨.identifier "seller", 66, 72⟩,
    ⟨.colon, 72, 73⟩, ⟨.type .publicKey, 74, 83⟩, ⟨.comma, 83, 84⟩,
    ⟨.identifier "refund_daa_score", 89, 105⟩, ⟨.colon, 105, 106⟩, ⟨.type .blockHeight, 107, 118⟩,
    ⟨.comma, 118, 119⟩, ⟨.identifier "max_fee", 124, 131⟩, ⟨.colon, 131, 132⟩,
    ⟨.type .amount, 133, 139⟩, ⟨.comma, 139, 140⟩, ⟨.rightBrace, 143, 144⟩, ⟨.spend, 148, 153⟩,
    ⟨.identifier "release", 154, 161⟩, ⟨.leftParen, 161, 162⟩,
    ⟨.identifier "buyer_sig", 162, 171⟩, ⟨.colon, 171, 172⟩, ⟨.type .signature, 173, 182⟩,
    ⟨.comma, 182, 183⟩, ⟨.identifier "seller_sig", 184, 194⟩, ⟨.colon, 194, 195⟩,
    ⟨.type .signature, 196, 205⟩, ⟨.rightParen, 205, 206⟩, ⟨.leftBrace, 207, 208⟩,
    ⟨.require, 213, 220⟩, ⟨.multisig, 221, 229⟩, ⟨.leftParen, 229, 230⟩, ⟨.integer "2", 230, 231⟩,
    ⟨.comma, 231, 232⟩, ⟨.leftBracket, 233, 234⟩, ⟨.identifier "buyer", 234, 239⟩,
    ⟨.comma, 239, 240⟩, ⟨.identifier "seller", 241, 247⟩, ⟨.rightBracket, 247, 248⟩,
    ⟨.comma, 248, 249⟩, ⟨.leftBracket, 250, 251⟩, ⟨.identifier "buyer_sig", 251, 260⟩,
    ⟨.comma, 260, 261⟩, ⟨.identifier "seller_sig", 262, 272⟩, ⟨.rightBracket, 272, 273⟩,
    ⟨.rightParen, 273, 274⟩, ⟨.semicolon, 274, 275⟩, ⟨.require, 280, 287⟩,
    ⟨.identifier "input_count", 288, 299⟩, ⟨.equalEqual, 300, 302⟩, ⟨.integer "1", 303, 304⟩,
    ⟨.semicolon, 304, 305⟩, ⟨.require, 310, 317⟩, ⟨.identifier "output_count", 318, 330⟩,
    ⟨.equalEqual, 331, 333⟩, ⟨.integer "1", 334, 335⟩, ⟨.semicolon, 335, 336⟩,
    ⟨.require, 341, 348⟩, ⟨.inputBuiltin, 349, 354⟩, ⟨.leftParen, 354, 355⟩,
    ⟨.integer "0", 355, 356⟩, ⟨.rightParen, 356, 357⟩, ⟨.dot, 357, 358⟩,
    ⟨.identifier "value", 358, 363⟩, ⟨.greater, 364, 365⟩, ⟨.identifier "max_fee", 366, 373⟩,
    ⟨.semicolon, 373, 374⟩, ⟨.require, 379, 386⟩, ⟨.outputBuiltin, 387, 393⟩,
    ⟨.leftParen, 393, 394⟩, ⟨.integer "0", 394, 395⟩, ⟨.rightParen, 395, 396⟩, ⟨.dot, 396, 397⟩,
    ⟨.identifier "value", 397, 402⟩, ⟨.greaterEqual, 403, 405⟩, ⟨.inputBuiltin, 406, 411⟩,
    ⟨.leftParen, 411, 412⟩, ⟨.integer "0", 412, 413⟩, ⟨.rightParen, 413, 414⟩, ⟨.dot, 414, 415⟩,
    ⟨.identifier "value", 415, 420⟩, ⟨.minus, 421, 422⟩, ⟨.identifier "max_fee", 423, 430⟩,
    ⟨.semicolon, 430, 431⟩, ⟨.require, 436, 443⟩, ⟨.outputBuiltin, 444, 450⟩,
    ⟨.leftParen, 450, 451⟩, ⟨.integer "0", 451, 452⟩, ⟨.rightParen, 452, 453⟩, ⟨.dot, 453, 454⟩,
    ⟨.identifier "script", 454, 460⟩, ⟨.equalEqual, 461, 463⟩, ⟨.identifier "seller", 464, 470⟩,
    ⟨.semicolon, 470, 471⟩, ⟨.rightBrace, 474, 475⟩, ⟨.spend, 479, 484⟩,
    ⟨.identifier "refund", 485, 491⟩, ⟨.leftParen, 491, 492⟩, ⟨.identifier "buyer_sig", 492, 501⟩,
    ⟨.colon, 501, 502⟩, ⟨.type .signature, 503, 512⟩, ⟨.rightParen, 512, 513⟩,
    ⟨.leftBrace, 514, 515⟩, ⟨.require, 520, 527⟩, ⟨.identifier "buyer_sig", 528, 537⟩,
    ⟨.dot, 537, 538⟩, ⟨.identifier "verify", 538, 544⟩, ⟨.leftParen, 544, 545⟩,
    ⟨.identifier "buyer", 545, 550⟩, ⟨.rightParen, 550, 551⟩, ⟨.semicolon, 551, 552⟩,
    ⟨.require, 557, 564⟩, ⟨.block, 565, 570⟩, ⟨.dot, 570, 571⟩, ⟨.identifier "height", 571, 577⟩,
    ⟨.greaterEqual, 578, 580⟩, ⟨.identifier "refund_daa_score", 581, 597⟩, ⟨.semicolon, 597, 598⟩,
    ⟨.require, 603, 610⟩, ⟨.identifier "input_count", 611, 622⟩, ⟨.equalEqual, 623, 625⟩,
    ⟨.integer "1", 626, 627⟩, ⟨.semicolon, 627, 628⟩, ⟨.require, 633, 640⟩,
    ⟨.identifier "output_count", 641, 653⟩, ⟨.equalEqual, 654, 656⟩, ⟨.integer "1", 657, 658⟩,
    ⟨.semicolon, 658, 659⟩, ⟨.require, 664, 671⟩, ⟨.inputBuiltin, 672, 677⟩,
    ⟨.leftParen, 677, 678⟩, ⟨.integer "0", 678, 679⟩, ⟨.rightParen, 679, 680⟩, ⟨.dot, 680, 681⟩,
    ⟨.identifier "value", 681, 686⟩, ⟨.greater, 687, 688⟩, ⟨.identifier "max_fee", 689, 696⟩,
    ⟨.semicolon, 696, 697⟩, ⟨.require, 702, 709⟩, ⟨.outputBuiltin, 710, 716⟩,
    ⟨.leftParen, 716, 717⟩, ⟨.integer "0", 717, 718⟩, ⟨.rightParen, 718, 719⟩, ⟨.dot, 719, 720⟩,
    ⟨.identifier "value", 720, 725⟩, ⟨.greaterEqual, 726, 728⟩, ⟨.inputBuiltin, 729, 734⟩,
    ⟨.leftParen, 734, 735⟩, ⟨.integer "0", 735, 736⟩, ⟨.rightParen, 736, 737⟩, ⟨.dot, 737, 738⟩,
    ⟨.identifier "value", 738, 743⟩, ⟨.minus, 744, 745⟩, ⟨.identifier "max_fee", 746, 753⟩,
    ⟨.semicolon, 753, 754⟩, ⟨.require, 759, 766⟩, ⟨.outputBuiltin, 767, 773⟩,
    ⟨.leftParen, 773, 774⟩, ⟨.integer "0", 774, 775⟩, ⟨.rightParen, 775, 776⟩, ⟨.dot, 776, 777⟩,
    ⟨.identifier "script", 777, 783⟩, ⟨.equalEqual, 784, 786⟩, ⟨.identifier "buyer", 787, 792⟩,
    ⟨.semicolon, 792, 793⟩, ⟨.rightBrace, 796, 797⟩, ⟨.rightBrace, 798, 799⟩]

theorem lexFile_of_loop {source file : String} {tokens : List Token}
    (hcomment : openBlockComment source.toList 0 none = none)
    (hstring : openString source.toList 0 none false = none)
    (hloop : lexLoop source file source.toList.length source.toList 0 = .ok tokens) :
    lexFile source file = .ok tokens := by
  have hblock : detectUnterminatedBlockComment source file = .ok () := by
    rw [detectUnterminatedBlockComment, hcomment]
  have hquote : detectUnterminatedString source file = .ok () := by
    rw [detectUnterminatedString, hstring]
  rw [lexFile, hblock, hquote]
  exact hloop

set_option maxRecDepth 10000 in
theorem lex_escrow : lexFile escrowSource escrowFile = .ok escrowTokens := by
  apply lexFile_of_loop
  -- a literal's characters are listed before the kernel runs the lexer on them
  · unfold escrowSource
    erw [String.toList_ofList]
    decide +kernel
  · unfold escrowSource
    erw [String.toList_ofList]
    decide +kernel
  · unfold escrowSource
    erw [String.toList_ofList]
    decide +kernel

/-- What both paths demand of the transaction, paying to `payee`. -/
def settlementKinds (payee : String) : List InstructionKind :=
  [.inputCount, .push (.integer 1), .equal, .verify,
    .outputCount, .push (.integer 1), .equal, .verify,
    .inputValue 0, .push (.symbol "max_fee"), .greaterThan, .verify,
    .outputValue 0, .inputValue 0, .push (.symbol "max_fee"), .sub, .greaterThanOrEqual, .verify,
    .outputScript 0, .push (.symbol payee), .equal, .verify]

def releaseKinds : List InstructionKind :=
  [.push (.symbol "buyer_sig"), .push (.symbol "seller_sig"), .push (.integer 2),
    .push (.symbol "buyer"), .push (.symbol "seller"), .checkMultiSig 2 2, .verify] ++
    settlementKinds "seller"

def refundKinds : List InstructionKind :=
  [.push (.symbol "buyer_sig"), .push (.symbol "buyer"), .checkSig 0, .verify,
    .push (.symbol "refund_daa_score"), .checkLockHeightFromStack, .verify] ++
    settlementKinds "buyer"

/-- The spends of a program by name. -/
def spendKinds (ir : IrProgram) : List (List (String × List InstructionKind)) :=
  ir.contracts.map fun contract =>
    contract.spends.map fun (spend : IrSpend) => (spend.name, kinds spend.instructions)

theorem lowerTokens_escrow :
    (lowerTokens escrowTokens escrowSource escrowFile).toOption.map spendKinds =
      some [[("release", releaseKinds), ("refund", refundKinds)]] := by
  decide +kernel

/-- The escrow's file compiles to one contract with the two paths. -/
theorem lower_escrow : ∃ ir, lowerFile escrowSource escrowFile = .ok ir ∧
    spendKinds ir = [[("release", releaseKinds), ("refund", refundKinds)]] := by
  rw [lowerFile_of_lex lex_escrow]
  exact toOption_map_eq_some lowerTokens_escrow

end KaspaScript
