import CommissionRules.Template

/-!
# The standard templates
-/

namespace CommissionRules.TemplateLibrary

/-- The built-in rules, from simple comparisons to chained queries on collections. -/
def standard : TemplateLibrary :=
  [ { id := "basic-commission"
      name := "Basic Commission"
      description := "Pays the period commission rate on every positive sale."
      category := .commission
      expression := "sale.Amount > 0"
      onSuccess := "sale.Amount * context.CommissionRate"
      onFailure := "0"
      complexity := .simple },
    { id := "target-achievement"
      name := "Target Achievement"
      description :=
        "Releases a share of the bonus pool once the rep's sales reach the period target."
      category := .quota
      expression := "userSales.sum(s => s.SaleAmount) >= context.Target"
      onSuccess := "context.BonusPool * 0.1"
      onFailure := "0"
      complexity := .simple },
    { id := "new-customer-bonus"
      name := "New Customer Bonus"
      description := "Five percent extra on sales to new customers, capped at 500."
      category := .bonus
      expression := "customer.IsNew === true"
      onSuccess := "Math.min(sale.Amount * 0.05, 500)"
      onFailure := "0"
      complexity := .simple },
    { id := "tiered-commission"
      name := "Tiered Commission"
      description := "Commission rate steps up with deal size."
      category := .commission
      expression := "sale.Amount >= 1000"
      onSuccess :=
        "sale.Amount >= 10000 ? sale.Amount * 0.08 : sale.Amount >= 5000 ? sale.Amount * "
          ++ "0.06 : sale.Amount * 0.04"
      onFailure := "sale.Amount * 0.02"
      complexity := .intermediate },
    { id := "high-margin-bonus"
      name := "High Margin Bonus"
      description := "Rewards high-margin sales that were not heavily discounted."
      category := .product
      expression := "sale.Margin > 0.3 && sale.Discount <= 0.1"
      onSuccess := "sale.Amount * sale.Margin * 0.05"
      onFailure := "0"
      complexity := .intermediate },
    { id := "promoted-product"
      name := "Promoted Product Spiff"
      description := "A flat amount per unit when the sold product is on promotion."
      category := .product
      expression := "products.any(p => p.Id == sale.ProductId && p.IsPromoted)"
      onSuccess := "sale.Quantity * 25"
      onFailure := "0"
      complexity := .intermediate },
    { id := "tenure-bonus"
      name := "Tenure Bonus"
      description :=
        "One percent per year of service, up to five years, for reps past their first year."
      category := .bonus
      expression := "Date.daysBetween(user.HireDate, context.Today) >= 365"
      onSuccess :=
        "Math.round(sale.Amount * 0.01 * Math.min(Math.floor(Date.daysBetween(user.HireDate, "
          ++ "context.Today) / 365), 5))"
      onFailure := "0"
      complexity := .intermediate },
    { id := "manager-override"
      name := "Manager Override"
      description := "Managers earn a small override on everything their team achieved."
      category := .team
      expression := "user.Role == 'manager' && teamMembers.count() > 0"
      onSuccess := "teamMembers.sum(m => m.Achieved) * 0.01"
      onFailure := "0"
      complexity := .intermediate },
    { id := "quarterly-accelerator"
      name := "Q4 Accelerator"
      description := "Extra bonus when fourth-quarter sales beat the target by twenty percent."
      category := .quota
      expression :=
        "context.Quarter === 4 && userSales.where(s => Date.quarter(s.CreatedDate) === "
          ++ "4).sum(s => s.SaleAmount) > context.Target * 1.2"
      onSuccess := "context.BonusPool * 0.15"
      onFailure := "0"
      complexity := .advanced },
    { id := "team-performance"
      name := "Team Performance Pool"
      description :=
        "Splits the bonus pool evenly when every team member reaches eighty percent of target."
      category := .team
      expression :=
        "teamMembers.count() > 0 && teamMembers.all(m => m.Achieved >= m.Target * 0.8)"
      onSuccess := "context.BonusPool / teamMembers.count()"
      onFailure := "0"
      complexity := .advanced },
    { id := "above-average-deals"
      name := "Above Average Deals"
      description := "Rewards reps whose average deal is larger than the company average."
      category := .quota
      expression :=
        "userSales.count() > 0 && userSales.average(s => s.SaleAmount) > allSales.average(s "
          ++ "=> s.SaleAmount)"
      onSuccess :=
        "(userSales.average(s => s.SaleAmount) - allSales.average(s => s.SaleAmount)) * 0.5"
      onFailure := "0"
      complexity := .advanced },
    { id := "regional-top-seller"
      name := "Regional Top Seller"
      description :=
        "Doubles commission for the rep with the highest sales volume in the sale's region."
      category := .commission
      expression :=
        "allSales.where(s => s.Region == sale.Region).groupBy(s => "
          ++ "s.CreatedBy).orderByDescending(g => g.Items.sum(s => s.SaleAmount)).first().Key == "
          ++ "user.Id"
      onSuccess := "sale.Amount * context.CommissionRate * 2"
      onFailure := "sale.Amount * context.CommissionRate"
      complexity := .expert },
    { id := "large-deal-streak"
      name := "Large Deal Streak"
      description := "Bonus when the rep's five most recent deals were all at least 1000."
      category := .bonus
      expression :=
        "userSales.count() >= 5 && userSales.orderByDescending(s => "
          ++ "s.CreatedDate).take(5).all(s => s.SaleAmount >= 1000)"
      onSuccess :=
        "userSales.orderByDescending(s => s.CreatedDate).take(5).average(s => s.SaleAmount) "
          ++ "* 0.02"
      onFailure := "0"
      complexity := .expert },
    { id := "category-diversity"
      name := "Category Diversity"
      description := "Flat bonus for closing deals in at least three product categories."
      category := .product
      expression :=
        "userSales.where(s => s.Status == 'closed').groupBy(s => s.CategoryId).count() >= 3"
      onSuccess := "250"
      onFailure := "0"
      complexity := .expert } ]

end CommissionRules.TemplateLibrary
