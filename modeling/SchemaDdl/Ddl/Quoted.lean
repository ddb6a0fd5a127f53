/-!
# Quoted texts

An identifier stands in double quotes and a literal in single quotes. A quote of the same kind
inside is written twice.
-/

namespace SchemaDdl.Ddl

def doubled (quote : Char) : List Char → List Char
  | [] => []
  | c :: cs => if c == quote then c :: c :: doubled quote cs else c :: doubled quote cs

def quoted (quote : Char) (s : String) : String :=
  String.ofList (quote :: doubled quote s.toList ++ [quote])

def identifier (s : String) : String :=
  quoted '"' s

def literal (s : String) : String :=
  quoted '\'' s

end SchemaDdl.Ddl
