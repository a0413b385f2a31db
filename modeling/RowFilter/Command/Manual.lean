import RowFilter.Text.Lowercase

namespace RowFilter

namespace Manual

inductive Category
  | language
  | operators
  | types
  | sorting
deriving DecidableEq, Repr

/-- The names of categories, in lower case with underscores. -/
def categoryNames : List (String × Category) :=
  [("syntax", .language), ("operators", .operators), ("ops", .operators), ("types", .types),
   ("type", .types), ("order_by", .sorting), ("orderby", .sorting), ("order", .sorting)]

/-- The category of a name. Case does not matter, and a hyphen is as good as an underscore. -/
def category? (name : String) : Option Category :=
  let key := (foldCase name).map fun c => if c = '-' then '_' else c
  (categoryNames.find? fun entry => entry.1.toList = key).map (·.2)

/-- The list of categories with a few examples. -/
def overview : String :=
  "SQLEXPR DOCUMENTATION

sqlexpr parses SQL-style WHERE and ORDER BY expressions and compiles them to
SQL text or runs them as filters over JSON rows.

DOCUMENTATION CATEGORIES

  syntax            Literals, properties, arrays and grouping
  operators         Comparison, like, in, null tests and connectives
  types             Field types and how literals are coerced to them
  order-by          The ORDER BY grammar

QUICK REFERENCE

  OrderNo = '12345'
  Charge >= 10.50 and Status not in ['C', 'P']
  OrderDate is null or OrderDate >= '2021-01-01'
  Three like 'three%'

Run 'sqlexpr docs <category>' for detailed documentation.
"

def languageText : String :=
  "SYNTAX - Literals, Properties and Grouping

PROPERTIES
  OrderNo
    A bare identifier names a field. Identifiers start with a letter or
    underscore and continue with letters, digits or underscores.

    Constraints:
      - Names are matched against fields ignoring case
      - Keywords (and, or, not, is, in, like, true, false, null, ci) cannot
        be used as property names

LITERALS
  'text'        String; write '' for a single quote: 'O''Brien'
  42, 4533.10   Number; digits with an optional fractional part
  true, false   Booleans
  null          The absent value

    Constraints:
      - No exponent and no leading sign
      - A number must be followed by whitespace, an operator or the end

ARRAYS
  [1, 2, 3]
  ['C', 'P']
    Comma separated literals, at least one. Only valid on the right of
    in / not in.

GROUPING
  (A = 1 or B = 2) and C = 3
    Parentheses override the left to right evaluation of connectives.
"

def operatorsText : String :=
  "OPERATORS - Comparison, Pattern, Membership and Connectives

COMPARISON OPERATORS
  =     Equal
  <>    Not equal
  <     Less than
  <=    Less than or equal
  >     Greater than
  >=    Greater than or equal

  Examples:
    One <> 2
    2 <= One
    Amount > 33.5

  Constraints:
    - null = null is true; null never equals a value
    - Ordering comparisons with null are false
    - Booleans cannot be ordered

NULL TESTS
  Two is null
  Two is not null

  On fields that cannot hold null the test is constant.

PATTERNS
  Three like 'three%'
  Three not like '%more'

  Only the first and last characters are inspected:
    ''          equals the empty string
    '%'         matches everything
    '%x%'       contains x
    '%x'        ends with x
    'x%'        starts with x
    'x'         equals x

  Constraints:
    - The left side must be a string field, the right a string literal
    - % inside the pattern is matched literally

MEMBERSHIP
  One in [1, 2, 4]
  Status not in ['Active', 'OnHold']

NEGATION
  not On
  not (One = 1)

CONNECTIVES
  and, or
    Both have the same precedence and group from the left:

      A or B and C      is      (A or B) and C
      A and B or C      is      (A and B) or C

    Use parentheses for any other grouping.
"

def typesText : String :=
  "TYPES - Field Types and Coercion

FIELD SPECS (filter command)
  Name:type         Non-nullable field
  Name:type?        Nullable field
  Name:enum(A|B)    Enumeration with members A and B

FIELD TYPES
  bool              true / false; also 0 / 1 and 'true' / 'false'
  i8 i16 i32 i64    Signed integers
  u8 u16 u32 u64    Unsigned integers
  f32 f64           Floating point
  decimal           Exact decimal
  string            Text
  date              '2022-10-10'
  time              '23:12', '23:12:05', '11:12pm', '11:12 PM'
  datetime          '2022-10-10T11:12:34', '2022-10-10 11:12:34',
                    '2022-10-10T11:12:34Z', '2022-10-10'
  uuid              'a05cac98-19dc-4af2-90fe-ed384c35e34f'
  enum(...)         Member name, ignoring case: 'active'

COERCION
  A literal compared with a field is converted to the field's type when the
  expression is compiled. A literal that does not fit fails the compile:

    One = 1.5         integer field with a fraction
    Small = 300       u8 field out of range
    Status = 'Gone'   not an enumeration member

  Two literals are compared by their own types; two fields must have
  comparable types. Integers, floats and decimals compare with each other.
"

def sortingText : String :=
  "ORDER BY - Sorting Clauses

SYNTAX
  OrderNo
  OrderNo asc, OrderDate desc

    A comma separated list of properties, each optionally followed by asc
    or desc (any case). Terms without a direction sort ascending.

OUTPUT
  sqlexpr order-by \"OrderNo asc, OrderDate desc\" --table Orders
    \"Orders\".\"OrderNo\", \"Orders\".\"OrderDate\" desc

  Ascending terms carry no suffix. An empty clause produces empty output.
"

/-- The text of a category. -/
def Category.text : Category → String
  | language => languageText
  | operators => operatorsText
  | types => typesText
  | sorting => sortingText

end Manual

end RowFilter
