import TrackerQuery.Span

/-!
# Errors

A query is refused for one of a closed set of causes, a `Fault`, reported with
the place in the query text it concerns.  All other failures, a switched-off
server feature, a setting or an unreadable file, carry a text of their own.  The
wording of every message stands here.
-/

namespace TrackerQuery

/-- Why a query is refused. -/
inductive Fault where
  | emptyName
  | expectingClosingQuote
  | expectingClosingSquareBracket
  | expectingSelect
  | expectingFieldName
  | expectingTableName
  | expectingCondition
  | expectingComparisonOperator
  | expectingValue
  | expectingConst
  | expectingBoolean
  | expectingEndOfString
  | expectingLeftBracket
  | expectingRightBracket
  | expectingBy
  | expectingFieldOrExpression
  | expectingMode
  | tooComplexExpression
  | duplicateFrom
  | duplicateWhere
  | duplicateGroupBy
  | duplicateOrderBy
  | duplicateAsOf
  | duplicateMode
  | duplicateOrderByField
  | fieldDoesNotExist
  | tableDoesNotExist
  | variableDoesNotExist
  | invalidFieldPrefix
  | mixedPrefixes
  | incompatibleConditionPartsType
  | incompatibleRightConst
  | unknownOrIncompatibleTypesInTheList
  | wrongTypeForArithmetic
  | wrongTypeForArithmeticRightOperand
  | invalidDate
  | incorrectQueryMethod
  | invalidNodeType
  | groupByIsNotSupported
  | modeOnWorkItems
  | unknownMode
  | nonQueryableField
  | nonSortableField
  | orderByLinkField
  | notSupportedTreeQuery
  | treeQueryNeedsOneLinkType
  | invalidConditionalOperator
  | invalidConditionForEmptyString
  | invalidConditionForLinkType
  | invalidConditionForLongTextField
  | invalidConditionForNodeField
  | invalidConditionForTreeField
  | invalidFieldTypeForCondition
  | invalidLinkTypeName
  | invalidLinkTypeNameRecursive
  | invalidLongTextSearchForWhitespace
  | invalidProjectName
  | projectNotFound
  | pathMustBeAStringNotStartingWithBackslash
  | treePathIsNotFoundInHierarchy
  | underCanBeUsedForTreePathFieldOnly
  | fieldConditionsInLinkQueries
  | nonZeroTime
  | tooComplexEverOperator
  | everNotEqualOperator
  | everWithDatePrecision
  | everWithLinkQuery
  deriving DecidableEq, Repr

namespace Fault

/-- The stable identifier of the cause and its wording. -/
def texts : Fault → String × String
  | .emptyName => ("EMPTY_NAME", "方括号中的名称为空")
  | .expectingClosingQuote => ("EXPECTING_CLOSING_QUOTE", "缺少结束引号")
  | .expectingClosingSquareBracket => ("EXPECTING_CLOSING_SQUARE_BRACKET", "缺少右方括号 ']'")
  | .expectingSelect => ("EXPECTING_SELECT", "应为 'select'")
  | .expectingFieldName => ("EXPECTING_FIELD_NAME", "应为字段名")
  | .expectingTableName => ("EXPECTING_TABLE_NAME", "应为表名")
  | .expectingCondition => ("EXPECTING_CONDITION", "应为条件")
  | .expectingComparisonOperator => ("EXPECTING_COMPARISON_OPERATOR", "应为比较运算符")
  | .expectingValue => ("EXPECTING_VALUE", "应为值")
  | .expectingConst => ("EXPECTING_CONST", "应为常量")
  | .expectingBoolean => ("EXPECTING_BOOLEAN", "应为布尔表达式")
  | .expectingEndOfString => ("EXPECTING_END_OF_STRING", "应为查询结尾")
  | .expectingLeftBracket => ("EXPECTING_LEFT_BRACKET", "应为 '('")
  | .expectingRightBracket => ("EXPECTING_RIGHT_BRACKET", "应为 ')'")
  | .expectingBy => ("EXPECTING_BY", "应为 'by'")
  | .expectingFieldOrExpression => ("EXPECTING_FIELD_OR_EXPRESSION", "应为字段名或表达式")
  | .expectingMode => ("EXPECTING_MODE", "应为模式关键字")
  | .tooComplexExpression => ("TOO_COMPLEX_EXPRESSION", "表达式嵌套过深")
  | .duplicateFrom => ("DUPLICATE_FROM", "重复的 'from' 子句")
  | .duplicateWhere => ("DUPLICATE_WHERE", "重复的 'where' 子句")
  | .duplicateGroupBy => ("DUPLICATE_GROUP_BY", "重复的 'group by' 子句")
  | .duplicateOrderBy => ("DUPLICATE_ORDER_BY", "重复的 'order by' 子句")
  | .duplicateAsOf => ("DUPLICATE_AS_OF", "重复的 'asof' 子句")
  | .duplicateMode => ("DUPLICATE_MODE", "重复的 'mode' 子句")
  | .duplicateOrderByField => ("DUPLICATE_ORDER_BY_FIELD", "字段在 'order by' 中出现多次")
  | .fieldDoesNotExist => ("FIELD_DOES_NOT_EXIST", "字段不存在")
  | .tableDoesNotExist => ("TABLE_DOES_NOT_EXIST", "表不存在")
  | .variableDoesNotExist => ("VARIABLE_DOES_NOT_EXIST", "变量不存在")
  | .invalidFieldPrefix => ("INVALID_FIELD_PREFIX", "无效的字段前缀")
  | .mixedPrefixes => ("MIXED_PREFIXES", "同一条件中混用了源、目标和链接字段")
  | .incompatibleConditionPartsType => ("INCOMPATIBLE_CONDITION_PARTS_TYPE", "条件两侧类型不兼容")
  | .incompatibleRightConst => ("INCOMPATIBLE_RIGHT_CONST", "常量与字段类型不兼容")
  | .unknownOrIncompatibleTypesInTheList =>
      ("UNKNOWN_OR_INCOMPATIBLE_TYPES_IN_THE_LIST", "列表中存在未知或不兼容的类型")
  | .wrongTypeForArithmetic => ("WRONG_TYPE_FOR_ARITHMETIC", "算术运算的类型错误")
  | .wrongTypeForArithmeticRightOperand =>
      ("WRONG_TYPE_FOR_ARITHMETIC_RIGHT_OPERAND", "算术运算的右操作数必须是数字")
  | .invalidDate => ("INVALID_DATE", "无效的日期")
  | .incorrectQueryMethod => ("INCORRECT_QUERY_METHOD", "查询方法与查询类型不符")
  | .invalidNodeType => ("INVALID_NODE_TYPE", "无效的节点类型")
  | .groupByIsNotSupported => ("GROUP_BY_IS_NOT_SUPPORTED", "不支持 'group by'")
  | .modeOnWorkItems => ("MODE_ON_WORK_ITEMS", "'mode' 只能用于链接查询")
  | .unknownMode => ("UNKNOWN_MODE", "未知的模式")
  | .nonQueryableField => ("NON_QUERYABLE_FIELD", "字段不可查询")
  | .nonSortableField => ("NON_SORTABLE_FIELD", "字段不可排序")
  | .orderByLinkField => ("ORDER_BY_LINK_FIELD", "链接字段不能用于 'order by'")
  | .notSupportedTreeQuery => ("NOT_SUPPORTED_TREE_QUERY", "树查询不支持 'asof'")
  | .treeQueryNeedsOneLinkType => ("TREE_QUERY_NEEDS_ONE_LINK_TYPE", "树查询必须恰好指定一种链接类型")
  | .invalidConditionalOperator => ("INVALID_CONDITIONAL_OPERATOR", "无效的条件运算符")
  | .invalidConditionForEmptyString =>
      ("INVALID_CONDITION_FOR_EMPTY_STRING", "空字符串只能与 '=' 或 '<>' 一起使用")
  | .invalidConditionForLinkType => ("INVALID_CONDITION_FOR_LINK_TYPE", "链接类型字段的条件无效")
  | .invalidConditionForLongTextField => ("INVALID_CONDITION_FOR_LONG_TEXT_FIELD", "长文本字段的条件无效")
  | .invalidConditionForNodeField => ("INVALID_CONDITION_FOR_NODE_FIELD", "节点字段的条件无效")
  | .invalidConditionForTreeField => ("INVALID_CONDITION_FOR_TREE_FIELD", "树路径字段的条件无效")
  | .invalidFieldTypeForCondition => ("INVALID_FIELD_TYPE_FOR_CONDITION", "该字段类型不能用于字段比较")
  | .invalidLinkTypeName => ("INVALID_LINK_TYPE_NAME", "无效的链接类型名称")
  | .invalidLinkTypeNameRecursive => ("INVALID_LINK_TYPE_NAME_RECURSIVE", "该链接类型不能用于递归查询")
  | .invalidLongTextSearchForWhitespace =>
      ("INVALID_LONG_TEXT_SEARCH_FOR_WHITESPACE", "长文本搜索内容不能为空白")
  | .invalidProjectName => ("INVALID_PROJECT_NAME", "无效的项目名称")
  | .projectNotFound => ("PROJECT_NOT_FOUND", "项目不存在")
  | .pathMustBeAStringNotStartingWithBackslash =>
      ("PATH_MUST_BE_A_STRING_NOT_STARTING_WITH_BACKSLASH", "路径必须是不以反斜杠开头的字符串")
  | .treePathIsNotFoundInHierarchy => ("TREE_PATH_IS_NOT_FOUND_IN_HIERARCHY", "层次结构中找不到该树路径")
  | .underCanBeUsedForTreePathFieldOnly =>
      ("UNDER_CAN_BE_USED_FOR_TREE_PATH_FIELD_ONLY", "'under' 只能用于树路径字段")
  | .fieldConditionsInLinkQueries => ("FIELD_CONDITIONS_IN_LINK_QUERIES", "链接查询中的字段比较必须使用相同前缀")
  | .nonZeroTime => ("NON_ZERO_TIME", "日期常量的时间部分不为零")
  | .tooComplexEverOperator => ("TOO_COMPLEX_EVER_OPERATOR", "'ever' 只能包含简单条件")
  | .everNotEqualOperator => ("EVER_NOT_EQUAL_OPERATOR", "'ever' 只能与 '=' 或 'contains' 一起使用")
  | .everWithDatePrecision => ("EVER_WITH_DATE_PRECISION", "按天精度时不能使用 'ever'")
  | .everWithLinkQuery => ("EVER_WITH_LINK_QUERY", "'ever' 不能用于链接字段")

def code (cause : Fault) : String :=
  cause.texts.1

def message (cause : Fault) : String :=
  cause.texts.2

/-- Every cause, in the order in which the stages of a query can raise them. -/
def all : List Fault :=
  (List.range (everWithLinkQuery.ctorIdx + 1)).map ofNat

def ofCode? (text : String) : Option Fault :=
  all.find? (·.code == text)

end Fault

/-- Why a command fails. -/
inductive Error where
  /-- The query is refused; without a place the fault is at its end. -/
  | fault (cause : Fault) (span : Option Span)
  /-- The server lacks a feature the query needs. -/
  | notSupported (detail : String)
  | config (detail : String)
  | file (detail : String)
  | serialization (detail : String)
  | xml (detail : String)
  /-- A number does not fit into its word. -/
  | overflow
  deriving DecidableEq, Repr

namespace Error

/-- The fault of a query at a place. -/
def located (cause : Fault) (span : Span) : Error :=
  .fault cause (some span)

def fault? : Error → Option Fault
  | .fault cause _ => some cause
  | _ => none

def span? : Error → Option Span
  | .fault _ span => span
  | _ => none

def place : Option Span → String
  | some span => s!" (位置 {span.render})"
  | none => " (位于输入末尾)"

def message : Error → String
  | .fault cause span => s!"语法错误: {cause.message}{place span}"
  | .notSupported detail => s!"不支持的操作: {detail}"
  | .config detail => s!"配置错误: {detail}"
  | .file detail => s!"IO 错误: {detail}"
  | .serialization detail => s!"序列化错误: {detail}"
  | .xml detail => s!"XML 输出错误: {detail}"
  | .overflow => "attempt to multiply with overflow"

/-- Succeeds iff the condition holds. -/
def ensure (condition : Bool) (error : Error) : Except Error Unit :=
  if condition then .ok () else .error error

end Error

end TrackerQuery
