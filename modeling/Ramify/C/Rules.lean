import Ramify.C.Vocabulary
import Ramify.LR.Generator

/-! The grammar of C: whole files of C99 without the preprocessor. Names of types are
no tokens of their own, so an identifier may be read as such a name wherever the grammar
lets it; which readings make sense is found out while parsing. -/

namespace Ramify.C.Rules

abbrev Entry := Option String × String × List NamedSymbol

def n (name : String) : NamedSymbol := .nonterm name

def t (name : String) : NamedSymbol := .term name

def rule (left : String) (right : List NamedSymbol) : Entry := (none, left, right)

def named (label left : String) (right : List NamedSymbol) : Entry := (some label, left, right)

def unitRules : List Entry := [
  rule "TranslationUnit" [n "ExternalDeclaration"],
  rule "TranslationUnit" [n "TranslationUnit", n "ExternalDeclaration"],
  rule "ExternalDeclaration" [n "FunctionDefinition"],
  rule "ExternalDeclaration" [n "Declaration"],
  named "functionDefinition" "FunctionDefinition" [
    n "DeclarationSpecifiers", n "Declarator", n "CompoundStatement"]]

def expressionRules : List Entry := [
  named "primaryIdentifier" "PrimaryExpression" [t "identifier"],
  rule "PrimaryExpression" [n "Constant"],
  rule "PrimaryExpression" [n "StringLiteralList"],
  named "parenthesized" "PrimaryExpression" [t "leftParen", n "Expression", t "rightParen"],
  rule "Constant" [t "integerConstant"],
  rule "Constant" [t "floatingConstant"],
  rule "Constant" [t "characterConstant"],
  rule "StringLiteralList" [t "stringLiteral"],
  rule "StringLiteralList" [n "StringLiteralList", t "stringLiteral"],
  rule "PostfixExpression" [n "PrimaryExpression"],
  named "subscript" "PostfixExpression" [
    n "PostfixExpression", t "leftBrack", n "Expression", t "rightBrack"],
  named "call" "PostfixExpression" [n "PostfixExpression", t "leftParen", t "rightParen"],
  named "callArgs" "PostfixExpression" [
    n "PostfixExpression", t "leftParen", n "ArgumentExpressionList", t "rightParen"],
  named "member" "PostfixExpression" [n "PostfixExpression", t "dot", t "identifier"],
  named "memberPointer" "PostfixExpression" [n "PostfixExpression", t "arrow", t "identifier"],
  named "postIncrement" "PostfixExpression" [n "PostfixExpression", t "increment"],
  named "postDecrement" "PostfixExpression" [n "PostfixExpression", t "decrement"],
  named "compoundLiteral" "PostfixExpression" [
    t "leftParen", n "TypeName", t "rightParen", t "leftBrace", n "InitializerList", t "rightBrace"],
  named "compoundLiteralComma" "PostfixExpression" [
    t "leftParen", n "TypeName", t "rightParen", t "leftBrace", n "InitializerList", t "comma", t "rightBrace"],
  rule "ArgumentExpressionList" [n "AssignmentExpression"],
  rule "ArgumentExpressionList" [n "ArgumentExpressionList", t "comma", n "AssignmentExpression"],
  rule "UnaryExpression" [n "PostfixExpression"],
  named "preIncrement" "UnaryExpression" [t "increment", n "UnaryExpression"],
  named "preDecrement" "UnaryExpression" [t "decrement", n "UnaryExpression"],
  named "unary" "UnaryExpression" [n "UnaryOperator", n "CastExpression"],
  named "sizeofExpression" "UnaryExpression" [t "sizeof", n "UnaryExpression"],
  named "sizeofType" "UnaryExpression" [t "sizeof", t "leftParen", n "TypeName", t "rightParen"],
  rule "UnaryOperator" [t "ampersand"],
  rule "UnaryOperator" [t "asterisk"],
  rule "UnaryOperator" [t "plus"],
  rule "UnaryOperator" [t "minus"],
  rule "UnaryOperator" [t "tilde"],
  rule "UnaryOperator" [t "exclamation"],
  rule "CastExpression" [n "UnaryExpression"],
  named "cast" "CastExpression" [t "leftParen", n "TypeName", t "rightParen", n "CastExpression"],
  rule "MultiplicativeExpression" [n "CastExpression"],
  named "multiply" "MultiplicativeExpression" [
    n "MultiplicativeExpression", t "asterisk", n "CastExpression"],
  named "divide" "MultiplicativeExpression" [
    n "MultiplicativeExpression", t "slash", n "CastExpression"],
  named "modulo" "MultiplicativeExpression" [
    n "MultiplicativeExpression", t "percent", n "CastExpression"],
  rule "AdditiveExpression" [n "MultiplicativeExpression"],
  named "add" "AdditiveExpression" [n "AdditiveExpression", t "plus", n "MultiplicativeExpression"],
  named "subtract" "AdditiveExpression" [
    n "AdditiveExpression", t "minus", n "MultiplicativeExpression"],
  rule "ShiftExpression" [n "AdditiveExpression"],
  named "shiftLeft" "ShiftExpression" [n "ShiftExpression", t "leftShift", n "AdditiveExpression"],
  named "shiftRight" "ShiftExpression" [
    n "ShiftExpression", t "rightShift", n "AdditiveExpression"],
  rule "RelationalExpression" [n "ShiftExpression"],
  named "less" "RelationalExpression" [n "RelationalExpression", t "lessThan", n "ShiftExpression"],
  named "greater" "RelationalExpression" [
    n "RelationalExpression", t "greaterThan", n "ShiftExpression"],
  named "lessOrEqual" "RelationalExpression" [
    n "RelationalExpression", t "lessEqual", n "ShiftExpression"],
  named "greaterOrEqual" "RelationalExpression" [
    n "RelationalExpression", t "greaterEqual", n "ShiftExpression"],
  rule "EqualityExpression" [n "RelationalExpression"],
  named "equal" "EqualityExpression" [
    n "EqualityExpression", t "equalEqual", n "RelationalExpression"],
  named "notEqualTo" "EqualityExpression" [
    n "EqualityExpression", t "notEqual", n "RelationalExpression"],
  rule "AndExpression" [n "EqualityExpression"],
  named "bitAnd" "AndExpression" [n "AndExpression", t "ampersand", n "EqualityExpression"],
  rule "ExclusiveOrExpression" [n "AndExpression"],
  named "bitXor" "ExclusiveOrExpression" [n "ExclusiveOrExpression", t "caret", n "AndExpression"],
  rule "InclusiveOrExpression" [n "ExclusiveOrExpression"],
  named "bitOr" "InclusiveOrExpression" [
    n "InclusiveOrExpression", t "pipe", n "ExclusiveOrExpression"],
  rule "LogicalAndExpression" [n "InclusiveOrExpression"],
  named "logicalAnd" "LogicalAndExpression" [
    n "LogicalAndExpression", t "andAnd", n "InclusiveOrExpression"],
  rule "LogicalOrExpression" [n "LogicalAndExpression"],
  named "logicalOr" "LogicalOrExpression" [
    n "LogicalOrExpression", t "orOr", n "LogicalAndExpression"],
  rule "ConditionalExpression" [n "LogicalOrExpression"],
  named "conditional" "ConditionalExpression" [
    n "LogicalOrExpression", t "question", n "Expression", t "colon", n "ConditionalExpression"],
  rule "AssignmentExpression" [n "ConditionalExpression"],
  named "assign" "AssignmentExpression" [
    n "UnaryExpression", n "AssignmentOperator", n "AssignmentExpression"],
  rule "AssignmentOperator" [t "equals"],
  rule "AssignmentOperator" [t "mulAssign"],
  rule "AssignmentOperator" [t "divAssign"],
  rule "AssignmentOperator" [t "modAssign"],
  rule "AssignmentOperator" [t "addAssign"],
  rule "AssignmentOperator" [t "subAssign"],
  rule "AssignmentOperator" [t "leftShiftAssign"],
  rule "AssignmentOperator" [t "rightShiftAssign"],
  rule "AssignmentOperator" [t "andAssign"],
  rule "AssignmentOperator" [t "xorAssign"],
  rule "AssignmentOperator" [t "orAssign"],
  rule "Expression" [n "AssignmentExpression"],
  named "comma" "Expression" [n "Expression", t "comma", n "AssignmentExpression"],
  rule "ConstantExpression" [n "ConditionalExpression"]]

def declarationRules : List Entry := [
  named "declarationBare" "Declaration" [n "DeclarationSpecifiers", t "semicolon"],
  named "declaration" "Declaration" [
    n "DeclarationSpecifiers", n "InitDeclaratorList", t "semicolon"],
  rule "DeclarationSpecifiers" [n "StorageClassSpecifier"],
  rule "DeclarationSpecifiers" [n "StorageClassSpecifier", n "DeclarationSpecifiers"],
  rule "DeclarationSpecifiers" [n "TypeSpecifier"],
  rule "DeclarationSpecifiers" [n "TypeSpecifier", n "DeclarationSpecifiers"],
  rule "DeclarationSpecifiers" [n "TypeQualifier"],
  rule "DeclarationSpecifiers" [n "TypeQualifier", n "DeclarationSpecifiers"],
  rule "DeclarationSpecifiers" [n "FunctionSpecifier"],
  rule "DeclarationSpecifiers" [n "FunctionSpecifier", n "DeclarationSpecifiers"],
  rule "InitDeclaratorList" [n "InitDeclarator"],
  rule "InitDeclaratorList" [n "InitDeclaratorList", t "comma", n "InitDeclarator"],
  rule "InitDeclarator" [n "Declarator"],
  named "initialized" "InitDeclarator" [n "DeclaratorInit", n "Initializer"],
  rule "DeclaratorInit" [n "Declarator", t "equals"],
  named "typedefStorage" "StorageClassSpecifier" [t "typedef"],
  rule "StorageClassSpecifier" [t "extern"],
  rule "StorageClassSpecifier" [t "static"],
  rule "StorageClassSpecifier" [t "auto"],
  rule "StorageClassSpecifier" [t "register"],
  rule "TypeSpecifier" [t "void"],
  rule "TypeSpecifier" [t "char"],
  rule "TypeSpecifier" [t "short"],
  rule "TypeSpecifier" [t "int"],
  rule "TypeSpecifier" [t "long"],
  rule "TypeSpecifier" [t "float"],
  rule "TypeSpecifier" [t "double"],
  rule "TypeSpecifier" [t "signed"],
  rule "TypeSpecifier" [t "unsigned"],
  rule "TypeSpecifier" [t "_Bool"],
  rule "TypeSpecifier" [n "StructOrUnionSpecifier"],
  rule "TypeSpecifier" [n "EnumSpecifier"],
  named "namedType" "TypeSpecifier" [n "TypedefName"],
  named "typedefName" "TypedefName" [t "identifier"],
  rule "StructOrUnionSpecifier" [
    n "StructOrUnion", t "identifier", t "leftBrace", n "StructDeclarationList", t "rightBrace"],
  rule "StructOrUnionSpecifier" [
    n "StructOrUnion", t "leftBrace", n "StructDeclarationList", t "rightBrace"],
  rule "StructOrUnionSpecifier" [n "StructOrUnion", t "identifier"],
  rule "StructOrUnion" [t "struct"],
  rule "StructOrUnion" [t "union"],
  rule "StructDeclarationList" [n "StructDeclaration"],
  rule "StructDeclarationList" [n "StructDeclarationList", n "StructDeclaration"],
  rule "StructDeclaration" [n "SpecifierQualifierList", n "StructDeclaratorList", t "semicolon"],
  rule "SpecifierQualifierList" [n "TypeSpecifier", n "SpecifierQualifierList"],
  rule "SpecifierQualifierList" [n "TypeSpecifier"],
  rule "SpecifierQualifierList" [n "TypeQualifier", n "SpecifierQualifierList"],
  rule "SpecifierQualifierList" [n "TypeQualifier"],
  rule "StructDeclaratorList" [n "StructDeclarator"],
  rule "StructDeclaratorList" [n "StructDeclaratorList", t "comma", n "StructDeclarator"],
  rule "StructDeclarator" [n "Declarator"],
  rule "StructDeclarator" [t "colon", n "ConstantExpression"],
  rule "StructDeclarator" [n "Declarator", t "colon", n "ConstantExpression"],
  rule "EnumSpecifier" [t "enum", t "leftBrace", n "EnumeratorList", t "rightBrace"],
  rule "EnumSpecifier" [t "enum", t "leftBrace", n "EnumeratorList", t "comma", t "rightBrace"],
  rule "EnumSpecifier" [
    t "enum", t "identifier", t "leftBrace", n "EnumeratorList", t "rightBrace"],
  rule "EnumSpecifier" [
    t "enum", t "identifier", t "leftBrace", n "EnumeratorList", t "comma", t "rightBrace"],
  rule "EnumSpecifier" [t "enum", t "identifier"],
  rule "EnumeratorList" [n "Enumerator"],
  rule "EnumeratorList" [n "EnumeratorList", t "comma", n "Enumerator"],
  named "enumerator" "Enumerator" [t "identifier"],
  named "enumeratorValue" "Enumerator" [t "identifier", t "equals", n "ConstantExpression"],
  rule "TypeQualifier" [t "const"],
  rule "TypeQualifier" [t "volatile"],
  rule "TypeQualifier" [t "restrict"],
  rule "FunctionSpecifier" [t "inline"],
  rule "Declarator" [n "Pointer", n "DirectDeclarator"],
  rule "Declarator" [n "DirectDeclarator"],
  named "declaratorName" "DirectDeclarator" [t "identifier"],
  rule "DirectDeclarator" [t "leftParen", n "Declarator", t "rightParen"],
  rule "DirectDeclarator" [
    n "DirectDeclarator", t "leftBrack", n "ConstantExpression", t "rightBrack"],
  rule "DirectDeclarator" [n "DirectDeclarator", t "leftBrack", t "rightBrack"],
  named "functionDeclarator" "DirectDeclarator" [
    n "DirectDeclarator", t "leftParen", n "ParameterTypeList", t "rightParen"],
  named "functionDeclaratorEmpty" "DirectDeclarator" [
    n "DirectDeclarator", t "leftParen", t "rightParen"],
  rule "Pointer" [t "asterisk"],
  rule "Pointer" [t "asterisk", n "TypeQualifierList"],
  rule "Pointer" [t "asterisk", n "Pointer"],
  rule "Pointer" [t "asterisk", n "TypeQualifierList", n "Pointer"],
  rule "TypeQualifierList" [n "TypeQualifier"],
  rule "TypeQualifierList" [n "TypeQualifierList", n "TypeQualifier"],
  rule "ParameterTypeList" [n "ParameterList"],
  rule "ParameterTypeList" [n "ParameterList", t "comma", t "ellipsis"],
  rule "ParameterList" [n "ParameterDeclaration"],
  rule "ParameterList" [n "ParameterList", t "comma", n "ParameterDeclaration"],
  rule "ParameterDeclaration" [n "DeclarationSpecifiers", n "Declarator"],
  rule "ParameterDeclaration" [n "DeclarationSpecifiers", n "AbstractDeclarator"],
  rule "ParameterDeclaration" [n "DeclarationSpecifiers"],
  rule "TypeName" [n "SpecifierQualifierList"],
  rule "TypeName" [n "SpecifierQualifierList", n "AbstractDeclarator"],
  rule "AbstractDeclarator" [n "Pointer"],
  rule "AbstractDeclarator" [n "DirectAbstractDeclarator"],
  rule "AbstractDeclarator" [n "Pointer", n "DirectAbstractDeclarator"],
  rule "DirectAbstractDeclarator" [t "leftParen", n "AbstractDeclarator", t "rightParen"],
  rule "DirectAbstractDeclarator" [t "leftBrack", t "rightBrack"],
  rule "DirectAbstractDeclarator" [t "leftBrack", n "ConstantExpression", t "rightBrack"],
  rule "DirectAbstractDeclarator" [n "DirectAbstractDeclarator", t "leftBrack", t "rightBrack"],
  rule "DirectAbstractDeclarator" [
    n "DirectAbstractDeclarator", t "leftBrack", n "ConstantExpression", t "rightBrack"],
  rule "DirectAbstractDeclarator" [t "leftParen", t "rightParen"],
  rule "DirectAbstractDeclarator" [t "leftParen", n "ParameterTypeList", t "rightParen"],
  rule "DirectAbstractDeclarator" [n "DirectAbstractDeclarator", t "leftParen", t "rightParen"],
  rule "DirectAbstractDeclarator" [
    n "DirectAbstractDeclarator", t "leftParen", n "ParameterTypeList", t "rightParen"],
  rule "Initializer" [n "AssignmentExpression"],
  rule "Initializer" [t "leftBrace", n "InitializerList", t "rightBrace"],
  rule "Initializer" [t "leftBrace", n "InitializerList", t "comma", t "rightBrace"],
  rule "InitializerList" [n "Initializer"],
  rule "InitializerList" [n "InitializerList", t "comma", n "Initializer"]]

def statementRules : List Entry := [
  rule "Statement" [n "LabeledStatement"],
  rule "Statement" [n "CompoundStatement"],
  rule "Statement" [n "ExpressionStatement"],
  rule "Statement" [n "SelectionStatement"],
  rule "Statement" [n "IterationStatement"],
  rule "Statement" [n "JumpStatement"],
  named "labeled" "LabeledStatement" [t "identifier", t "colon", n "Statement"],
  named "caseLabel" "LabeledStatement" [t "case", n "ConstantExpression", t "colon", n "Statement"],
  named "defaultLabel" "LabeledStatement" [t "default", t "colon", n "Statement"],
  rule "CompoundStatement" [n "BlockOpen", t "rightBrace"],
  rule "CompoundStatement" [n "BlockOpen", n "BlockItemList", t "rightBrace"],
  rule "BlockOpen" [t "leftBrace"],
  rule "BlockItemList" [n "BlockItem"],
  rule "BlockItemList" [n "BlockItemList", n "BlockItem"],
  rule "BlockItem" [n "Declaration"],
  rule "BlockItem" [n "Statement"],
  named "emptyStatement" "ExpressionStatement" [t "semicolon"],
  named "expressionStatement" "ExpressionStatement" [n "Expression", t "semicolon"],
  named "ifThen" "SelectionStatement" [
    t "if", t "leftParen", n "Expression", t "rightParen", n "Statement"],
  named "ifElse" "SelectionStatement" [
    t "if", t "leftParen", n "Expression", t "rightParen", n "Statement", t "else", n "Statement"],
  named "switch" "SelectionStatement" [
    t "switch", t "leftParen", n "Expression", t "rightParen", n "Statement"],
  named "while" "IterationStatement" [
    t "while", t "leftParen", n "Expression", t "rightParen", n "Statement"],
  named "doWhile" "IterationStatement" [
    t "do", n "Statement", t "while", t "leftParen", n "Expression", t "rightParen", t "semicolon"],
  named "forExpr" "IterationStatement" [
    t "for", t "leftParen", n "ExpressionStatement", n "ExpressionStatement", t "rightParen", n "Statement"],
  named "forExprStep" "IterationStatement" [
    t "for", t "leftParen", n "ExpressionStatement", n "ExpressionStatement", n "Expression", t "rightParen", n "Statement"],
  named "forDecl" "IterationStatement" [
    t "for", t "leftParen", n "Declaration", n "ExpressionStatement", t "rightParen", n "Statement"],
  named "forDeclStep" "IterationStatement" [
    t "for", t "leftParen", n "Declaration", n "ExpressionStatement", n "Expression", t "rightParen", n "Statement"],
  named "goto" "JumpStatement" [t "goto", t "identifier", t "semicolon"],
  named "continue" "JumpStatement" [t "continue", t "semicolon"],
  named "break" "JumpStatement" [t "break", t "semicolon"],
  named "return" "JumpStatement" [t "return", t "semicolon"],
  named "returnValue" "JumpStatement" [t "return", n "Expression", t "semicolon"]]

def rules : List Rule :=
  (unitRules ++ expressionRules ++ declarationRules ++ statementRules).zipIdx.map
    fun ((label, left, right), i) => ⟨i + 1, label, left, right⟩

end Ramify.C.Rules

namespace Ramify.C

def grammar : Except GrammarError Grammar := Grammar.ofRules Rules.rules

def preferShift : List String := ["else"]

def construction : Except GrammarError LR.Construction :=
  grammar.map (LR.Construction.ofGrammar preferShift)

def standard : Option Vocabulary :=
  construction.toOption.bind fun K => (Vocabulary.ofTable K.table).toOption

end Ramify.C
