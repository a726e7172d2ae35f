import BlockLang.Grammar.Reader

/-!
# The grammar of the language

The grammar file of the language: its terminal symbols, and its productions in the notation of
options in brackets and choices between bars.

## Main definitions

* `Grammar.lexicalLines`, `Grammar.productionLines`: the lines of the two parts of the file
* `Grammar.referenceText`: the file
-/

namespace BlockLang.Grammar

/-- The section of the terminal symbols. -/
def lexicalLines : List String :=
  ["@lexical \x7b\n",
   "    @keywords \x7b\n",
   "        begin end\n",
   "        if then else\n",
   "        while loop\n",
   "        do until\n",
   "        for\n",
   "        call\n",
   "    \x7d\n\n",
   "    @operators \x7b\n",
   "        -- relational\n",
   "        \"<\" \"<=\" \"=\" \"/=\" \">\" \">=\"\n",
   "        -- arithmetic\n",
   "        \"+\" \"-\" \"*\" \"/\"\n",
   "        -- assignment\n",
   "        \":=\"\n",
   "        -- punctuation\n",
   "        \";\" \",\" \"(\" \")\"\n",
   "    \x7d\n\n",
   "    @literals \x7b\n",
   "        identifier      = /[A-Za-z_][A-Za-z0-9_]*/\n",
   "        numberConstant  = /[0-9]+(\\.[0-9]+)?/\n",
   "        stringConstant  = /\"([^\"\\\\\\n]|\\\\.)*\"/\n",
   "    \x7d\n",
   "\x7d\n"]

/-- The productions. -/
def productionLines : List String :=
  ["StatementPart       = \"begin\" StatementList \"end\" ;\n",
   "StatementList       = Statement [ \";\" StatementList ] ;\n",
   "Statement           = AssignmentStatement | IfStatement | WhileStatement\n",
   "                    | ProcedureStatement | UntilStatement | ForStatement ;\n",
   "AssignmentStatement = identifier \":=\" ( Expression | stringConstant ) ;\n",
   "IfStatement         = \"if\" Condition \"then\" StatementList\n",
   "                      ( \"end\" \"if\" | \"else\" StatementList \"end\" \"if\" ) ;\n",
   "WhileStatement      = \"while\" Condition \"loop\" StatementList \"end\" \"loop\" ;\n",
   "UntilStatement      = \"do\" StatementList \"until\" Condition ;\n",
   "ForStatement        = \"for\" \"(\" AssignmentStatement \";\" Condition \";\"\n",
   "                      AssignmentStatement \")\" \"do\" StatementList \"end\" \"loop\" ;\n",
   "ProcedureStatement  = \"call\" identifier \"(\" ArgumentList \")\" ;\n",
   "ArgumentList        = identifier [ \",\" ArgumentList ] ;\n",
   "Condition           = identifier ConditionalOperator\n",
   "                      ( identifier | numberConstant | stringConstant ) ;\n",
   "ConditionalOperator = \"<\" | \"<=\" | \"=\" | \"/=\" | \">\" | \">=\" ;\n",
   "Expression          = Term [ ( \"+\" | \"-\" ) Expression ] ;\n",
   "Term                = Factor [ ( \"*\" | \"/\" ) Term ] ;\n",
   "Factor              = identifier | numberConstant | \"(\" Expression \")\" ;\n"]

/-- The grammar file of the language. -/
def referenceText : String := String.join (lexicalLines ++ "\n" :: productionLines)

end BlockLang.Grammar
